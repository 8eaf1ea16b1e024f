/-
This file proves that a garbage list loses no item and passes none to its callback twice or too
early. A slot is the property of the call that has locked it: nobody else writes it until the lock
holder stores an epoch again. So the item of a slot is accounted for by the epoch in the slot or,
while the slot is locked, by the epoch its lock holder remembers, until the lock holder has called
the callback. That a lock may be taken on a later item with the same epoch is harmless: what counts
is the payload the slot has at that moment, and this is the payload of an item of that epoch.
-/

import Pmwcas.GarbageList

namespace Pmwcas.GarbageList

open Transition

/-! ### Locks -/

/-- The slot a call has locked. -/
def Pc.lock : Pc → Option Nat
  | .checkSafe slot _ => some slot
  | .restore slot _ => some slot
  | .loadCallback slot _ => some slot
  | .loadContext slot _ _ => some slot
  | .loadItem slot _ _ _ => some slot
  | .destroy slot _ _ _ _ => some slot
  | .storeCallback slot => some slot
  | .storeContext slot => some slot
  | .storeItem slot => some slot
  | .storeEpoch slot => some slot
  | _ => none

/-- The slot a call has locked and whose item it has not passed to its callback yet, with the
epoch of the item. -/
def Pc.pending : Pc → Option (Nat × Nat)
  | .checkSafe slot priorItemEpoch => some (slot, priorItemEpoch)
  | .restore slot priorItemEpoch => some (slot, priorItemEpoch)
  | .loadCallback slot priorItemEpoch => some (slot, priorItemEpoch)
  | .loadContext slot priorItemEpoch _ => some (slot, priorItemEpoch)
  | .loadItem slot priorItemEpoch _ _ => some (slot, priorItemEpoch)
  | .destroy slot priorItemEpoch _ _ _ => some (slot, priorItemEpoch)
  | _ => none

theorem invalidEpoch_ne_zero : invalidEpoch ≠ 0 := by
  decide

theorem Pc.lock_of_pending {pc : Pc} {slot epoch : Nat} (pending : pc.pending = some (slot, epoch)) :
    pc.lock = some slot := by
  cases pc <;> cases pending <;> rfl

/-- The slot a thread has locked. -/
def State.lockOf (state : State) (t : Nat) : Option Nat :=
  (state.calls t).bind fun frame => frame.2.lock

def State.pendingOf (state : State) (t : Nat) : Option (Nat × Nat) :=
  (state.calls t).bind fun frame => frame.2.pending

theorem State.lockOf_of_pendingOf {state : State} {t slot epoch : Nat}
    (pending : state.pendingOf t = some (slot, epoch)) : state.lockOf t = some slot := by
  unfold State.pendingOf at pending
  unfold State.lockOf
  obtain ⟨frame, here, there⟩ := Option.bind_eq_some_iff.1 pending
  rw [here]
  exact Pc.lock_of_pending there

/-! ### What a slot holds -/

/-- The slot has the payload of the removed item. -/
structure Item.Carries (item : Item) (removed : Removed) : Prop where
  callback : item.destroyCallback = removed.callback
  context : item.destroyCallbackContext = removed.context
  item : item.removedItem = removed.item

/-- The slot holds the removed item with its callback, its context and its epoch. The epoch is in
the slot or, while a call has the slot locked, with that call. -/
structure State.Holds (state : State) (slot : Nat) (removed : Removed) : Prop where
  carries : (state.items slot).Carries removed
  stamped : ((state.items slot).removalEpoch = removed.epoch ∧ removed.epoch ≠ 0 ∧
      removed.epoch ≠ invalidEpoch) ∨
    ∃ t, state.pendingOf t = some (slot, removed.epoch)

open Classical in
/-- The slots that hold the removed item. -/
noncomputable def State.holding (config : Config) (state : State) (removed : Removed) : Finset Nat :=
  {slot ∈ Finset.range config.itemCount | state.Holds slot removed}

/-- Two states whose slots hold the same. -/
theorem State.card_holding_eq {config : Config} {before after : State} {removed : Removed}
    (same : ∀ slot, after.Holds slot removed ↔ before.Holds slot removed) :
    (after.holding config removed).card = (before.holding config removed).card := by
  classical
  unfold State.holding
  exact congrArg Finset.card (Finset.filter_congr fun slot _ => same slot)

/-- One slot has come to hold the item, and the others hold what they held. -/
theorem State.card_holding_gain {config : Config} {before after : State} {removed : Removed}
    {slot : Nat} (inside : slot < config.itemCount) (empty : ¬ before.Holds slot removed)
    (holds : after.Holds slot removed)
    (others : ∀ other, other ≠ slot → (after.Holds other removed ↔ before.Holds other removed)) :
    (after.holding config removed).card = (before.holding config removed).card + 1 := by
  classical
  have grown : after.holding config removed = insert slot (before.holding config removed) := by
    ext other
    unfold State.holding
    simp only [Finset.mem_filter, Finset.mem_range, Finset.mem_insert]
    by_cases same : other = slot
    · subst same
      simp only [true_or, iff_true]
      exact ⟨inside, holds⟩
    · rw [others other same]
      simp only [same, false_or]
  rw [grown, Finset.card_insert_of_notMem]
  unfold State.holding
  simp only [Finset.mem_filter, not_and]
  exact fun _ => empty

/-! ### The invariant -/

/-- The epoch a push has stamped its item with marks neither an empty nor a locked slot. -/
def Call.Stamped : Call → Prop
  | .push removed => removed.epoch ≠ 0 ∧ removed.epoch ≠ invalidEpoch
  | .scavenge => True

/-- The slot is locked and its item still there, and the item's epoch is a proper one. -/
structure Seized (config : Config) (state : State) (slot priorItemEpoch : Nat) : Prop where
  inside : slot < config.itemCount
  locked : (state.items slot).removalEpoch = invalidEpoch
  occupied : priorItemEpoch ≠ 0
  proper : priorItemEpoch ≠ invalidEpoch

theorem Seized.of_same {config : Config} {before after : State} {slot priorItemEpoch : Nat}
    (seized : Seized config before slot priorItemEpoch)
    (same : after.items slot = before.items slot) : Seized config after slot priorItemEpoch :=
  ⟨seized.inside, same ▸ seized.locked, seized.occupied, seized.proper⟩

/-- What the local variables of a call say. -/
def Pc.Fits (config : Config) (state : State) (call : Call) : Pc → Prop
  | .fetchTail => True
  | .bump slot => slot < config.itemCount
  | .bumping slot => slot < config.itemCount
  | .loadEpoch slot => slot < config.itemCount
  | .exchange slot priorItemEpoch => slot < config.itemCount ∧ priorItemEpoch ≠ invalidEpoch ∧
    (config.kind ≠ .garbageList → (state.items slot).removalEpoch = priorItemEpoch)
  | .checkSafe slot priorItemEpoch => Seized config state slot priorItemEpoch
  | .restore slot priorItemEpoch => Seized config state slot priorItemEpoch
  | .loadCallback slot priorItemEpoch => Seized config state slot priorItemEpoch
  | .loadContext slot priorItemEpoch callback => Seized config state slot priorItemEpoch ∧
    (state.items slot).destroyCallback = callback
  | .loadItem slot priorItemEpoch callback context => Seized config state slot priorItemEpoch ∧
    (state.items slot).destroyCallback = callback ∧
    (state.items slot).destroyCallbackContext = context
  | .destroy slot priorItemEpoch callback context item =>
    Seized config state slot priorItemEpoch ∧
      (state.items slot).Carries ⟨item, callback, context, priorItemEpoch⟩
  | .storeCallback slot => slot < config.itemCount ∧
    (state.items slot).removalEpoch = invalidEpoch
  | .storeContext slot => slot < config.itemCount ∧
    (state.items slot).removalEpoch = invalidEpoch ∧
    (state.items slot).destroyCallback = call.replacement.destroyCallback
  | .storeItem slot => slot < config.itemCount ∧
    (state.items slot).removalEpoch = invalidEpoch ∧
    (state.items slot).destroyCallback = call.replacement.destroyCallback ∧
    (state.items slot).destroyCallbackContext = call.replacement.destroyCallbackContext
  | .storeEpoch slot => slot < config.itemCount ∧
    (state.items slot).removalEpoch = invalidEpoch ∧
    (state.items slot).destroyCallback = call.replacement.destroyCallback ∧
    (state.items slot).destroyCallbackContext = call.replacement.destroyCallbackContext ∧
    (state.items slot).removedItem = call.replacement.removedItem
  | .aborted => False

theorem Pc.Fits.locked {config : Config} {state : State} {call : Call} {pc : Pc} {slot : Nat}
    (fits : pc.Fits config state call) (lock : pc.lock = some slot) :
    (state.items slot).removalEpoch = invalidEpoch := by
  cases pc <;> cases lock
  case checkSafe => exact Seized.locked fits
  case restore => exact Seized.locked fits
  case loadCallback => exact Seized.locked fits
  case loadContext => exact fits.1.locked
  case loadItem => exact fits.1.locked
  case destroy => exact fits.1.locked
  case storeCallback => exact fits.2
  all_goals exact fits.2.1

/-- What a call relies on is the slot it has locked or, in the unsafe list, the one it is about to
lock. -/
theorem Pc.Fits.of_same {config : Config} {before after : State} {call : Call} {pc : Pc}
    (fits : pc.Fits config before call)
    (locked : ∀ slot, pc.lock = some slot → after.items slot = before.items slot)
    (alone : config.kind ≠ .garbageList → ∀ slot, after.items slot = before.items slot) :
    pc.Fits config after call := by
  cases pc
  case exchange slot priorItemEpoch =>
    exact ⟨fits.1, fits.2.1, fun kind => alone kind slot ▸ fits.2.2 kind⟩
  case checkSafe slot _ => exact Seized.of_same fits (locked slot rfl)
  case restore slot _ => exact Seized.of_same fits (locked slot rfl)
  case loadCallback slot _ => exact Seized.of_same fits (locked slot rfl)
  case loadContext slot _ _ => exact ⟨fits.1.of_same (locked slot rfl), locked slot rfl ▸ fits.2⟩
  case loadItem slot _ _ _ => exact ⟨fits.1.of_same (locked slot rfl), locked slot rfl ▸ fits.2⟩
  case destroy slot _ _ _ _ => exact ⟨fits.1.of_same (locked slot rfl), locked slot rfl ▸ fits.2⟩
  case storeCallback slot => exact ⟨fits.1, locked slot rfl ▸ fits.2⟩
  case storeContext slot => exact ⟨fits.1, locked slot rfl ▸ fits.2⟩
  case storeItem slot => exact ⟨fits.1, locked slot rfl ▸ fits.2⟩
  case storeEpoch slot => exact ⟨fits.1, locked slot rfl ▸ fits.2⟩
  all_goals exact fits

/-- Slots are locked by at most one call, and calls find in them what they expect. -/
structure Sound (config : Config) (state : State) : Prop where
  epochs : EpochManager.Invariant config.epochs state.epochs
  below : state.epochs.currentEpoch < invalidEpoch
  stamped : ∀ t call pc, state.calls t = some (call, pc) → call.Stamped
  calls : ∀ t call pc, state.calls t = some (call, pc) → pc.Fits config state call
  exclusive : ∀ t u slot, state.lockOf t = some slot → state.lockOf u = some slot → t = u
  locked : ∀ slot, (state.items slot).removalEpoch = invalidEpoch →
    ∃ t, state.lockOf t = some slot
  cleared : ∀ slot, (state.items slot).removalEpoch = 0 → (state.items slot).removedItem = 0
  owner : ∀ owner t, config.kind = .garbageListUnsafe owner → state.calls t ≠ none → t = owner

/-- Every push that has returned is accounted for. -/
def Conserved (config : Config) (state : State) : Prop :=
  ∀ removed, state.returned.count removed =
    (state.holding config removed).card + state.passed.count removed

/-- The invariant of the list. -/
structure Invariant (config : Config) (state : State) : Prop where
  sound : Sound config state
  conserved : Conserved config state

theorem invariant_start (config : Config) : Invariant config (.start config) where
  sound := {
    epochs := EpochManager.invariant_start config.epochs
    below := config.first_lt
    stamped := fun _ _ _ absurdly => nomatch absurdly
    calls := fun _ _ _ absurdly => nomatch absurdly
    exclusive := fun _ _ _ absurdly => nomatch absurdly
    locked := fun _ absurdly => nomatch absurdly
    cleared := fun _ _ => rfl
    owner := fun _ _ _ inside => absurd rfl inside }
  conserved removed := by
    have none_ : State.holding config (.start config) removed = ∅ := by
      classical
      unfold State.holding
      refine Finset.filter_eq_empty_iff.2 fun slot _ holds => ?_
      rcases holds.stamped with ⟨zero, nonzero, -⟩ | ⟨t, pending⟩
      · exact nonzero zero.symm
      · cases pending
    rw [none_]
    rfl

variable {config : Config}

/-! ### What a step does to what the slots hold -/

/-- A step leaves what the slots hold as it is, or one slot loses its item to its callback, or one
empty slot gets the item of a push that returns. -/
inductive Change (config : Config) (before after : State) : Prop where
  | same (holds : ∀ slot removed, after.Holds slot removed ↔ before.Holds slot removed)
      (returned : after.returned = before.returned) (passed : after.passed = before.passed)
  | passes (slot : Nat) (item : Removed) (inside : slot < config.itemCount)
      (held : ∀ removed, before.Holds slot removed ↔ removed = item)
      (gone : ∀ removed, ¬ after.Holds slot removed)
      (others : ∀ other, other ≠ slot → ∀ removed,
        after.Holds other removed ↔ before.Holds other removed)
      (returned : after.returned = before.returned)
      (passed : after.passed = before.passed ++ [item])
  | returns (slot : Nat) (item : Removed) (inside : slot < config.itemCount)
      (empty : ∀ removed, ¬ before.Holds slot removed)
      (holds : ∀ removed, after.Holds slot removed ↔ removed = item)
      (others : ∀ other, other ≠ slot → ∀ removed,
        after.Holds other removed ↔ before.Holds other removed)
      (returned : after.returned = before.returned ++ [item])
      (passed : after.passed = before.passed)

theorem Change.conserved {before after : State} (change : Change config before after)
    (conserved : Conserved config before) : Conserved config after := by
  intro removed
  cases change with
  | same holds returned passed =>
    rw [returned, passed, conserved removed, State.card_holding_eq fun slot => holds slot removed]
  | passes slot item inside held gone others returned passed =>
    rw [returned, passed, List.count_append, conserved removed]
    by_cases same : removed = item
    · have dropped := State.card_holding_gain inside (gone removed) ((held removed).2 same)
        fun other different => (others other different removed).symm
      rw [dropped, same, List.count_singleton_self]
      omega
    · have kept : (after.holding config removed).card = (before.holding config removed).card := by
        refine State.card_holding_eq fun other => ?_
        by_cases here : other = slot
        · rw [here]
          exact iff_of_false (gone removed) fun holds => same ((held removed).1 holds)
        · exact others other here removed
      rw [kept, List.count_singleton, if_neg (by simpa using fun here => same here.symm)]
      rfl
  | returns slot item inside empty holds others returned passed =>
    rw [returned, passed, List.count_append, conserved removed]
    by_cases same : removed = item
    · have gained := State.card_holding_gain inside (empty removed) ((holds removed).2 same)
        fun other different => others other different removed
      rw [gained, same, List.count_singleton_self]
      omega
    · have kept : (after.holding config removed).card = (before.holding config removed).card := by
        refine State.card_holding_eq fun other => ?_
        by_cases here : other = slot
        · rw [here]
          exact iff_of_false (fun there => same ((holds removed).1 there)) (empty removed)
        · exact others other here removed
      rw [kept, List.count_singleton, if_neg (by simpa using fun here => same here.symm)]
      rfl

/-- A step that keeps the list sound and accounts for its items. -/
structure Keeps (config : Config) (before after : State) : Prop where
  sound : Sound config after
  change : Change config before after

/-! ### What a slot holds, by who has it locked -/

namespace Sound

variable {state : State} {t slot : Nat}

theorem removalEpoch_of_lockOf (sound : Sound config state) (lock : state.lockOf t = some slot) :
    (state.items slot).removalEpoch = invalidEpoch := by
  obtain ⟨⟨call, pc⟩, here, there⟩ := Option.bind_eq_some_iff.1 lock
  exact (sound.calls t call pc here).locked there

/-- A slot whose item a call is about to pass to its callback. -/
theorem holds_iff_of_pending (sound : Sound config state) {epoch : Nat} {removed : Removed}
    (pending : state.pendingOf t = some (slot, epoch)) :
    state.Holds slot removed ↔ (state.items slot).Carries removed ∧ removed.epoch = epoch := by
  have lock := State.lockOf_of_pendingOf pending
  constructor
  · rintro ⟨carries, ⟨here, -, proper⟩ | ⟨u, other⟩⟩
    · exact absurd (here.symm.trans (sound.removalEpoch_of_lockOf lock)) proper
    · have same := sound.exclusive u t slot (State.lockOf_of_pendingOf other) lock
      rw [same, pending] at other
      cases other
      exact ⟨carries, rfl⟩
  · rintro ⟨carries, same⟩
    exact ⟨carries, .inr ⟨t, same ▸ pending⟩⟩

/-- A locked slot whose item has been passed to its callback. -/
theorem not_holds_of_lockOf (sound : Sound config state) {removed : Removed}
    (lock : state.lockOf t = some slot) (passed : state.pendingOf t = none) :
    ¬ state.Holds slot removed := by
  rintro ⟨-, ⟨here, -, proper⟩ | ⟨u, other⟩⟩
  · exact absurd (here.symm.trans (sound.removalEpoch_of_lockOf lock)) proper
  · have same := sound.exclusive u t slot (State.lockOf_of_pendingOf other) lock
    rw [same, passed] at other
    cases other

/-- A slot that is not locked. -/
theorem holds_iff_of_unlocked (sound : Sound config state) {removed : Removed}
    (unlocked : (state.items slot).removalEpoch ≠ invalidEpoch) :
    state.Holds slot removed ↔ (state.items slot).Carries removed ∧
      (state.items slot).removalEpoch = removed.epoch ∧ removed.epoch ≠ 0 := by
  constructor
  · rintro ⟨carries, ⟨here, nonzero, -⟩ | ⟨u, other⟩⟩
    · exact ⟨carries, here, nonzero⟩
    · exact absurd (sound.removalEpoch_of_lockOf (State.lockOf_of_pendingOf other)) unlocked
  · rintro ⟨carries, here, nonzero⟩
    exact ⟨carries, .inl ⟨here, nonzero, here ▸ unlocked⟩⟩

end Sound

/-! ### What a step of one thread does to the others -/

/-- A step of thread `t` that writes no slot but `slot`, and this one only if the thread has it
locked or nobody has. -/
structure Local (before after : State) (t slot : Nat) : Prop where
  others : ∀ u, u ≠ t → after.calls u = before.calls u
  items : ∀ other, other ≠ slot → after.items other = before.items other
  mine : after.items slot = before.items slot ∨ before.lockOf t = some slot ∨
    (before.items slot).removalEpoch ≠ invalidEpoch

namespace Local

variable {before after : State} {t slot : Nat}

theorem lockOf (effect : Local before after t slot) {u : Nat} (other : u ≠ t) :
    after.lockOf u = before.lockOf u := by
  unfold State.lockOf
  rw [effect.others u other]

theorem pendingOf (effect : Local before after t slot) {u : Nat} (other : u ≠ t) :
    after.pendingOf u = before.pendingOf u := by
  unfold State.pendingOf
  rw [effect.others u other]

/-- The slots other calls have locked are not written. -/
theorem items_of_lockOf (effect : Local before after t slot) (sound : Sound config before)
    {u locked : Nat} (other : u ≠ t) (lock : before.lockOf u = some locked) :
    after.items locked = before.items locked := by
  by_cases same : locked = slot
  · subst same
    rcases effect.mine with same | mine | unlocked
    · exact same
    · exact absurd (sound.exclusive u t locked lock mine) other
    · exact absurd (sound.removalEpoch_of_lockOf lock) unlocked
  · exact effect.items locked same

/-- What the other slots hold is as before. -/
theorem holds_iff (effect : Local before after t slot)
    (pendingBefore : ∀ other epoch, before.pendingOf t = some (other, epoch) → other = slot)
    (pendingAfter : ∀ other epoch, after.pendingOf t = some (other, epoch) → other = slot)
    {other : Nat} (different : other ≠ slot) (removed : Removed) :
    after.Holds other removed ↔ before.Holds other removed := by
  have pending : ∀ u, after.pendingOf u = some (other, removed.epoch) ↔
      before.pendingOf u = some (other, removed.epoch) := by
    intro u
    by_cases same : u = t
    · subst same
      constructor
      · exact fun here => absurd (pendingAfter other _ here) different
      · exact fun here => absurd (pendingBefore other _ here) different
    · rw [effect.pendingOf same]
  constructor
  · rintro ⟨carries, stamped⟩
    rw [effect.items other different] at carries stamped
    simp only [pending] at stamped
    exact ⟨carries, stamped⟩
  · rintro ⟨carries, stamped⟩
    rw [← effect.items other different] at carries stamped
    simp only [← pending] at stamped
    exact ⟨carries, stamped⟩

end Local

/-- A step keeps slots and calls sound if it leaves its own call and its own slot sound. -/
theorem Sound.of_local {before after : State} {t slot : Nat} (sound : Sound config before)
    (effect : Local before after t slot)
    (owner : ∀ owner, config.kind = .garbageListUnsafe owner → t = owner)
    (epochs : EpochManager.Invariant config.epochs after.epochs)
    (below : after.epochs.currentEpoch < invalidEpoch)
    (own : ∀ call pc, after.calls t = some (call, pc) → call.Stamped ∧ pc.Fits config after call)
    (lock : ∀ locked, after.lockOf t = some locked →
      before.lockOf t = some locked ∨ (before.items locked).removalEpoch ≠ invalidEpoch)
    (locked : ∀ locked, (after.items locked).removalEpoch = invalidEpoch →
      after.lockOf t = some locked ∨
        (before.items locked).removalEpoch = invalidEpoch ∧ before.lockOf t ≠ some locked)
    (cleared : (after.items slot).removalEpoch = 0 → (after.items slot).removedItem = 0) :
    Sound config after where
  epochs := epochs
  below := below
  stamped u call pc here := by
    by_cases same : u = t
    · subst same
      exact (own call pc here).1
    · rw [effect.others u same] at here
      exact sound.stamped u call pc here
  calls u call pc here := by
    by_cases same : u = t
    · subst same
      exact (own call pc here).2
    · rw [effect.others u same] at here
      refine (sound.calls u call pc here).of_same (fun slot there => ?_) fun kind slot => ?_
      · refine effect.items_of_lockOf sound same ?_
        rw [State.lockOf, here]
        exact there
      · cases kinds : config.kind with
        | garbageList => exact absurd kinds kind
        | garbageListUnsafe single =>
          have inside : before.calls u ≠ none := by rw [here]; exact Option.some_ne_none _
          exact absurd ((sound.owner single u kinds inside).trans (owner single kinds).symm) same
  exclusive u v slot first second := by
    have alone : ∀ w, w ≠ t → after.lockOf w = some slot → after.lockOf t = some slot → False := by
      intro w other there here
      rw [effect.lockOf other] at there
      rcases lock slot here with before_ | unlocked
      · exact other (sound.exclusive w t slot there before_)
      · exact unlocked (sound.removalEpoch_of_lockOf there)
    by_cases firstSame : u = t
    · by_cases secondSame : v = t
      · rw [firstSame, secondSame]
      · rw [firstSame] at first
        exact absurd first fun first => alone v secondSame second first
    · by_cases secondSame : v = t
      · rw [secondSame] at second
        exact absurd second fun second => alone u firstSame first second
      · rw [effect.lockOf firstSame] at first
        rw [effect.lockOf secondSame] at second
        exact sound.exclusive u v slot first second
  locked slot here := by
    rcases locked slot here with mine | ⟨before_, notMine⟩
    · exact ⟨t, mine⟩
    · obtain ⟨u, there⟩ := sound.locked slot before_
      have other : u ≠ t := fun same => notMine (same ▸ there)
      exact ⟨u, (effect.lockOf other).trans there⟩
  cleared other here := by
    by_cases same : other = slot
    · subst same
      exact cleared here
    · rw [effect.items other same] at here ⊢
      exact sound.cleared other here
  owner single u kind inside := by
    by_cases same : u = t
    · rw [same]
      exact owner single kind
    · rw [effect.others u same] at inside
      exact sound.owner single u kind inside

/-! ### The parts of a step -/

theorem State.calls_setCall_self (state : State) (t : Nat) (frame : Option (Call × Pc)) :
    (state.setCall t frame).calls t = frame := by
  simp only [State.setCall, Function.update_self]

theorem State.calls_setCall_of_ne (state : State) {t u : Nat} (other : u ≠ t)
    (frame : Option (Call × Pc)) : (state.setCall t frame).calls u = state.calls u := by
  simp only [State.setCall, Function.update_of_ne other]

theorem State.lockOf_setCall (state : State) (t : Nat) (frame : Option (Call × Pc)) :
    (state.setCall t frame).lockOf t = frame.bind fun frame => frame.2.lock := by
  rw [State.lockOf, State.calls_setCall_self]

theorem State.pendingOf_setCall (state : State) (t : Nat) (frame : Option (Call × Pc)) :
    (state.setCall t frame).pendingOf t = frame.bind fun frame => frame.2.pending := by
  rw [State.pendingOf, State.calls_setCall_self]

theorem State.items_setItem_self (state : State) (slot : Nat) (item : Item) :
    (state.setItem slot item).items slot = item := by
  simp only [State.setItem, Function.update_self]

theorem State.items_setItem_of_ne (state : State) {slot other : Nat} (different : other ≠ slot)
    (item : Item) : (state.setItem slot item).items other = state.items other := by
  simp only [State.setItem, Function.update_of_ne different]

/-- Where a call goes when it gives up a slot: it has nothing locked there. -/
structure Unlocking (config : Config) (frame : Option (Call × Pc)) : Prop where
  stamped : ∀ call pc, frame = some (call, pc) → call.Stamped
  fits : ∀ call pc, frame = some (call, pc) → ∀ state, pc.Fits config state call
  lock : (frame.bind fun frame => frame.2.lock) = none
  pending : (frame.bind fun frame => frame.2.pending) = none

theorem unlocking_none : Unlocking config none where
  stamped _ _ absurdly := nomatch absurdly
  fits _ _ absurdly := nomatch absurdly
  lock := rfl
  pending := rfl

theorem unlocking_scavengeFrom (slot : Nat) :
    Unlocking config (Call.scavengeFrom config.itemCount slot) := by
  unfold Call.scavengeFrom
  split
  next inside =>
    refine ⟨?_, ?_, rfl, rfl⟩
    · intro call pc same
      cases same
      trivial
    · intro call pc same state
      cases same
      exact inside
  next => exact unlocking_none

theorem Call.Stamped.unlocking_retry {call : Call} (stamped : call.Stamped) (slot : Nat) :
    Unlocking config (call.retry config.itemCount slot) := by
  cases call with
  | push removed =>
    refine ⟨?_, ?_, rfl, rfl⟩
    · intro call pc same
      cases same
      exact stamped
    · intro call pc same state
      cases same
      trivial
  | scavenge => exact unlocking_scavengeFrom (slot + 1)

/-- What holds of the call a thread is in. -/
structure InCall (config : Config) (state : State) (t : Nat) (call : Call) (pc : Pc) : Prop where
  here : state.calls t = some (call, pc)
  stamped : call.Stamped
  fits : pc.Fits config state call
  owner : ∀ owner, config.kind = .garbageListUnsafe owner → t = owner

theorem Sound.inCall {state : State} {t : Nat} {call : Call} {pc : Pc} (sound : Sound config state)
    (here : state.calls t = some (call, pc)) : InCall config state t call pc where
  here := here
  stamped := sound.stamped t call pc here
  fits := sound.calls t call pc here
  owner single kind := sound.owner single t kind (by rw [here]; exact Option.some_ne_none _)

theorem InCall.lockOf {state : State} {t : Nat} {call : Call} {pc : Pc}
    (inCall : InCall config state t call pc) : state.lockOf t = pc.lock := by
  rw [State.lockOf, inCall.here]
  rfl

theorem InCall.pendingOf {state : State} {t : Nat} {call : Call} {pc : Pc}
    (inCall : InCall config state t call pc) : state.pendingOf t = pc.pending := by
  rw [State.pendingOf, inCall.here]
  rfl

theorem Change.of_same {before after : State}
    (items : after.items = before.items) (pending : ∀ u, after.pendingOf u = before.pendingOf u)
    (returned : after.returned = before.returned) (passed : after.passed = before.passed) :
    Change config before after := by
  refine .same (fun slot removed => ?_) returned passed
  constructor
  · rintro ⟨carries, stamped⟩
    simp only [items, pending] at carries stamped
    exact ⟨carries, stamped⟩
  · rintro ⟨carries, stamped⟩
    simp only [← items, ← pending] at carries stamped
    exact ⟨carries, stamped⟩

/-- A step that changes local variables only, and no lock. -/
theorem Sound.of_quiet {before after : State} {t : Nat} (sound : Sound config before)
    (others : ∀ u, u ≠ t → after.calls u = before.calls u) (items : after.items = before.items)
    (lock : after.lockOf t = before.lockOf t) (pending : after.pendingOf t = before.pendingOf t)
    (returned : after.returned = before.returned) (passed : after.passed = before.passed)
    (owner : ∀ owner, config.kind = .garbageListUnsafe owner → t = owner)
    (epochs : EpochManager.Invariant config.epochs after.epochs)
    (below : after.epochs.currentEpoch < invalidEpoch)
    (own : ∀ call pc, after.calls t = some (call, pc) → call.Stamped ∧ pc.Fits config after call) :
    Keeps config before after := by
  constructor
  · have effect : Local before after t 0 :=
      ⟨others, fun other _ => congrFun items other, .inl (congrFun items 0)⟩
    refine sound.of_local effect owner epochs below own ?_ ?_ ?_
    · intro locked here
      exact .inl (lock ▸ here)
    · intro locked here
      rw [items] at here
      rw [lock]
      by_cases mine : before.lockOf t = some locked
      · exact .inl mine
      · exact .inr ⟨here, mine⟩
    · rw [items]
      exact sound.cleared 0
  · refine .of_same items (fun u => ?_) returned passed
    by_cases same : u = t
    · rw [same, pending]
    · unfold State.pendingOf
      rw [others u same]

/-- A step of a call that only moves on, without locks before or after or with the same one. The
step may use the epoch manager and `tail_`. -/
theorem Sound.moveFrom {before : State} {t : Nat} {call : Call} {pc : Pc}
    (sound : Sound config before) (inCall : InCall config before t call pc) (middle : State)
    (moved : Pc) (calls : middle.calls = before.calls) (items : middle.items = before.items)
    (returned : middle.returned = before.returned) (passed : middle.passed = before.passed)
    (epochs : EpochManager.Invariant config.epochs middle.epochs)
    (below : middle.epochs.currentEpoch < invalidEpoch)
    (lock : moved.lock = pc.lock) (pending : moved.pending = pc.pending)
    (fits : moved.Fits config before call) :
    Keeps config before (middle.setCall t (some (call, moved))) := by
  refine sound.of_quiet (fun u other => ?_) items ?_ ?_ returned passed inCall.owner epochs below ?_
  · rw [State.calls_setCall_of_ne _ other, calls]
  · rw [State.lockOf_setCall, inCall.lockOf]
    exact lock
  · rw [State.pendingOf_setCall, inCall.pendingOf]
    exact pending
  · intro other there same
    rw [State.calls_setCall_self] at same
    cases same
    exact ⟨inCall.stamped, fits.of_same (fun slot _ => congrFun items slot)
      fun _ slot => congrFun items slot⟩

theorem Sound.move {state : State} {t : Nat} {call : Call} {pc : Pc}
    (sound : Sound config state) (inCall : InCall config state t call pc)
    {moved : Pc} (lock : moved.lock = pc.lock) (pending : moved.pending = pc.pending)
    (fits : moved.Fits config state call) :
    Keeps config state (state.setCall t (some (call, moved))) :=
  sound.moveFrom inCall state moved rfl rfl rfl rfl sound.epochs sound.below lock pending fits

/-- A step of a call that gives up a slot it has not locked. -/
theorem Sound.moveOn {state : State} {t : Nat} {call : Call} {pc : Pc}
    (sound : Sound config state) (inCall : InCall config state t call pc)
    {frame : Option (Call × Pc)} (unlocking : Unlocking config frame) (lock : pc.lock = none)
    (pending : pc.pending = none) : Keeps config state (state.setCall t frame) := by
  refine sound.of_quiet (fun u other => state.calls_setCall_of_ne other _) rfl ?_ ?_ rfl rfl
    inCall.owner sound.epochs sound.below ?_
  · rw [State.lockOf_setCall, inCall.lockOf, lock, unlocking.lock]
  · rw [State.pendingOf_setCall, inCall.pendingOf, pending, unlocking.pending]
  · intro other there same
    rw [State.calls_setCall_self] at same
    exact ⟨unlocking.stamped other there same, unlocking.fits other there same _⟩

/-! ### Steps that write a slot -/

/-- A step that writes one slot: the call has it locked, or nobody has. After it the slot is
locked by this call or by none. -/
structure Writes (before after : State) (t slot : Nat) (pc : Pc) (frame : Option (Call × Pc)) :
    Prop where
  others : ∀ u, u ≠ t → after.calls u = before.calls u
  calls : after.calls t = frame
  items : ∀ other, other ≠ slot → after.items other = before.items other
  epochs : after.epochs = before.epochs
  mine : pc.lock = some slot ∨ pc.lock = none ∧ (before.items slot).removalEpoch ≠ invalidEpoch
  lock : (frame.bind fun frame => frame.2.lock) = some slot ∨
    (frame.bind fun frame => frame.2.lock) = none ∧
      (after.items slot).removalEpoch ≠ invalidEpoch

namespace Writes

variable {before after : State} {t slot : Nat} {call : Call} {pc : Pc}
  {frame : Option (Call × Pc)}

theorem effect (writes : Writes before after t slot pc frame)
    (inCall : InCall config before t call pc) : Local before after t slot where
  others := writes.others
  items := writes.items
  mine := by
    rcases writes.mine with locked | ⟨-, unlocked⟩
    · exact .inr (.inl (inCall.lockOf.trans locked))
    · exact .inr (.inr unlocked)

theorem lockOf (writes : Writes before after t slot pc frame) :
    after.lockOf t = frame.bind fun frame => frame.2.lock := by
  rw [State.lockOf, writes.calls]

theorem eq_of_lock_before (writes : Writes before after t slot pc frame) {locked : Nat}
    (lock : pc.lock = some locked) : locked = slot := by
  rcases writes.mine with here | ⟨none_, -⟩
  · rw [here] at lock
    exact (Option.some.inj lock).symm
  · rw [none_] at lock
    cases lock

theorem eq_of_lock_after (writes : Writes before after t slot pc frame) {locked : Nat}
    (lock : after.lockOf t = some locked) : locked = slot := by
  rw [writes.lockOf] at lock
  rcases writes.lock with here | ⟨none_, -⟩
  · rw [here] at lock
    exact (Option.some.inj lock).symm
  · rw [none_] at lock
    cases lock

theorem sound (writes : Writes before after t slot pc frame)
    (inCall : InCall config before t call pc) (sound : Sound config before)
    (own : ∀ call pc, frame = some (call, pc) → call.Stamped ∧ pc.Fits config after call)
    (cleared : (after.items slot).removalEpoch = 0 → (after.items slot).removedItem = 0) :
    Sound config after := by
  refine sound.of_local (writes.effect inCall) inCall.owner ?_ ?_ ?_ ?_ ?_ cleared
  · rw [writes.epochs]
    exact sound.epochs
  · rw [writes.epochs]
    exact sound.below
  · intro call pc here
    exact own call pc (writes.calls.symm.trans here)
  · intro locked here
    have same := writes.eq_of_lock_after here
    subst same
    rcases writes.mine with mine | ⟨-, unlocked⟩
    · exact .inl (inCall.lockOf.trans mine)
    · exact .inr unlocked
  · intro locked here
    by_cases same : locked = slot
    · subst same
      rcases writes.lock with there | ⟨-, unlocked⟩
      · exact .inl (writes.lockOf.trans there)
      · exact absurd here unlocked
    · rw [writes.items locked same] at here
      refine .inr ⟨here, fun mine => same ?_⟩
      rw [inCall.lockOf] at mine
      exact writes.eq_of_lock_before mine

theorem holds_iff (writes : Writes before after t slot pc frame)
    (inCall : InCall config before t call pc) {other : Nat} (different : other ≠ slot)
    (removed : Removed) : after.Holds other removed ↔ before.Holds other removed := by
  refine (writes.effect inCall).holds_iff ?_ ?_ different removed
  · intro locked epoch pending
    have lock := State.lockOf_of_pendingOf pending
    rw [inCall.lockOf] at lock
    exact writes.eq_of_lock_before lock
  · intro locked epoch pending
    exact writes.eq_of_lock_after (State.lockOf_of_pendingOf pending)

/-- The slot holds what it held. -/
theorem same (writes : Writes before after t slot pc frame)
    (inCall : InCall config before t call pc)
    (returned : after.returned = before.returned) (passed : after.passed = before.passed)
    (same : ∀ removed, after.Holds slot removed ↔ before.Holds slot removed) :
    Change config before after := by
  refine .same (fun other removed => ?_) returned passed
  by_cases here : other = slot
  · rw [here]
    exact same removed
  · exact writes.holds_iff inCall here removed

end Writes

/-! ### The invariant is kept -/

namespace Sound

variable {state : State} {t slot priorItemEpoch : Nat} {call : Call}

/-- A successful exchange: the item of the slot is now accounted for by the call. -/
theorem lock (sound : Sound config state)
    (inCall : InCall config state t call (.exchange slot priorItemEpoch))
    (same : (state.items slot).removalEpoch = priorItemEpoch) :
    Keeps config state
      ((state.setItem slot { state.items slot with removalEpoch := invalidEpoch }).setCall t
        (some (call, State.locked slot priorItemEpoch))) := by
  obtain ⟨inside, proper, -⟩ := inCall.fits
  have unlocked : (state.items slot).removalEpoch ≠ invalidEpoch := same ▸ proper
  have lock : (State.locked slot priorItemEpoch).lock = some slot := by
    unfold State.locked
    split <;> rfl
  generalize after_ : (state.setItem slot
    { state.items slot with removalEpoch := invalidEpoch }).setCall t
      (some (call, State.locked slot priorItemEpoch)) = after
  have written : after.items slot = { state.items slot with removalEpoch := invalidEpoch } := by
    rw [← after_]
    exact state.items_setItem_self slot _
  have writes : Writes state after t slot (.exchange slot priorItemEpoch)
      (some (call, State.locked slot priorItemEpoch)) := by
    subst after_
    exact ⟨fun u other => State.calls_setCall_of_ne _ other _, State.calls_setCall_self _ t _,
      fun other different => state.items_setItem_of_ne different _, rfl, .inr ⟨rfl, unlocked⟩,
      .inl lock⟩
  have soundAfter : Sound config after := by
    refine writes.sound inCall sound ?_ ?_
    · intro other pc here
      cases here
      refine ⟨inCall.stamped, ?_⟩
      unfold State.locked
      split
      next occupied => exact ⟨inside, by rw [written], occupied, proper⟩
      next => exact ⟨inside, by rw [written]⟩
    · rw [written]
      exact fun zero => absurd zero invalidEpoch_ne_zero
  refine ⟨soundAfter, writes.same inCall (by rw [← after_]; rfl)
    (by rw [← after_]; rfl) fun removed => ?_⟩
  rw [sound.holds_iff_of_unlocked unlocked, same]
  by_cases occupied : priorItemEpoch = 0
  · have lockOf : after.lockOf t = some slot := writes.lockOf.trans lock
    have pendingOf : after.pendingOf t = none := by
      rw [State.pendingOf, writes.calls, State.locked, if_neg (not_not.2 occupied)]
      rfl
    constructor
    · exact fun holds => absurd holds (soundAfter.not_holds_of_lockOf lockOf pendingOf)
    · rintro ⟨-, zero, nonzero⟩
      exact absurd (zero.symm.trans occupied) nonzero
  · have pendingOf : after.pendingOf t = some (slot, priorItemEpoch) := by
      rw [State.pendingOf, writes.calls, State.locked, if_pos occupied]
      rfl
    rw [soundAfter.holds_iff_of_pending pendingOf, written]
    constructor
    · rintro ⟨carries, epoch⟩
      exact ⟨⟨carries.callback, carries.context, carries.item⟩, epoch.symm, epoch ▸ occupied⟩
    · rintro ⟨carries, epoch, -⟩
      exact ⟨⟨carries.callback, carries.context, carries.item⟩, epoch.symm⟩

/-- The item is not safe to reclaim, and its epoch goes back to the slot. -/
theorem restore (sound : Sound config state)
    (inCall : InCall config state t call (.restore slot priorItemEpoch)) :
    Keeps config state
      ((state.setItem slot { state.items slot with removalEpoch := priorItemEpoch }).setCall t
        (call.retry config.itemCount slot)) := by
  have seized : Seized config state slot priorItemEpoch := inCall.fits
  have unlocking : Unlocking config (call.retry config.itemCount slot) :=
    inCall.stamped.unlocking_retry slot
  generalize after_ : (state.setItem slot
    { state.items slot with removalEpoch := priorItemEpoch }).setCall t
      (call.retry config.itemCount slot) = after
  have written : after.items slot = { state.items slot with removalEpoch := priorItemEpoch } := by
    rw [← after_]
    exact state.items_setItem_self slot _
  have unlocked : (after.items slot).removalEpoch ≠ invalidEpoch := by
    rw [written]
    exact seized.proper
  have writes : Writes state after t slot (.restore slot priorItemEpoch)
      (call.retry config.itemCount slot) := by
    subst after_
    exact ⟨fun u other => State.calls_setCall_of_ne _ other _, State.calls_setCall_self _ t _,
      fun other different => state.items_setItem_of_ne different _, rfl, .inl rfl,
      .inr ⟨unlocking.lock, unlocked⟩⟩
  have soundAfter : Sound config after := by
    refine writes.sound inCall sound ?_ ?_
    · intro other pc here
      exact ⟨unlocking.stamped other pc here, unlocking.fits other pc here after⟩
    · rw [written]
      exact fun zero => absurd zero seized.occupied
  refine ⟨soundAfter, writes.same inCall (by rw [← after_]; rfl)
    (by rw [← after_]; rfl) fun removed => ?_⟩
  rw [soundAfter.holds_iff_of_unlocked unlocked,
    sound.holds_iff_of_pending (inCall.pendingOf.trans rfl), written]
  constructor
  · rintro ⟨carries, epoch, -⟩
    exact ⟨⟨carries.callback, carries.context, carries.item⟩, epoch.symm⟩
  · rintro ⟨carries, epoch⟩
    exact ⟨⟨carries.callback, carries.context, carries.item⟩, epoch.symm,
      epoch ▸ seized.occupied⟩

/-- The callback is called. -/
theorem destroy {callback context item : Nat} (sound : Sound config state)
    (inCall : InCall config state t call (.destroy slot priorItemEpoch callback context item)) :
    Keeps config state ((state.pass ⟨item, callback, context, priorItemEpoch⟩).setCall t
      (some (call, .storeCallback slot))) := by
  obtain ⟨seized, carried⟩ := inCall.fits
  generalize after_ : (state.pass ⟨item, callback, context, priorItemEpoch⟩).setCall t
      (some (call, .storeCallback slot)) = after
  have items : after.items = state.items := by
    rw [← after_]
    rfl
  have writes : Writes state after t slot (.destroy slot priorItemEpoch callback context item)
      (some (call, .storeCallback slot)) := by
    subst after_
    exact ⟨fun u other => State.calls_setCall_of_ne _ other _, State.calls_setCall_self _ t _,
      fun _ _ => rfl, rfl, .inl rfl, .inl rfl⟩
  have soundAfter : Sound config after := by
    refine writes.sound inCall sound ?_ ?_
    · intro other pc here
      cases here
      exact ⟨inCall.stamped, seized.inside, by rw [items]; exact seized.locked⟩
    · rw [items]
      exact sound.cleared slot
  refine ⟨soundAfter, .passes slot ⟨item, callback, context, priorItemEpoch⟩ seized.inside
    (fun removed => ?_) (fun removed => ?_)
    (fun other different removed => writes.holds_iff inCall different removed)
    (by rw [← after_]; rfl) (by rw [← after_]; rfl)⟩
  · rw [sound.holds_iff_of_pending (inCall.pendingOf.trans rfl)]
    constructor
    · rintro ⟨carries, epoch⟩
      obtain ⟨removedItem, removedCallback, removedContext, removedEpoch⟩ := removed
      simp only [Removed.mk.injEq]
      exact ⟨carries.item.symm.trans carried.item, carries.callback.symm.trans carried.callback,
        carries.context.symm.trans carried.context, epoch⟩
    · rintro rfl
      exact ⟨carried, rfl⟩
  · refine soundAfter.not_holds_of_lockOf (writes.lockOf.trans rfl) ?_
    rw [State.pendingOf, writes.calls]
    rfl

/-- A field of a slot is overwritten whose item has been passed to its callback. -/
theorem overwrite {pc moved : Pc} (sound : Sound config state)
    (inCall : InCall config state t call pc) (lock : pc.lock = some slot)
    (passed : pc.pending = none) (movedLock : moved.lock = some slot)
    (movedPassed : moved.pending = none) (item : Item)
    (still : item.removalEpoch = invalidEpoch)
    (fits : ∀ after : State, after.items slot = item → moved.Fits config after call) :
    Keeps config state ((state.setItem slot item).setCall t (some (call, moved))) := by
  generalize after_ : (state.setItem slot item).setCall t (some (call, moved)) = after
  have written : after.items slot = item := by
    rw [← after_]
    exact state.items_setItem_self slot _
  have writes : Writes state after t slot pc (some (call, moved)) := by
    subst after_
    exact ⟨fun u other => State.calls_setCall_of_ne _ other _, State.calls_setCall_self _ t _,
      fun other different => state.items_setItem_of_ne different _, rfl, .inl lock,
      .inl movedLock⟩
  have soundAfter : Sound config after := by
    refine writes.sound inCall sound ?_ ?_
    · intro other pc here
      cases here
      exact ⟨inCall.stamped, fits after written⟩
    · rw [written, still]
      exact fun zero => absurd zero invalidEpoch_ne_zero
  refine ⟨soundAfter, writes.same inCall (by rw [← after_]; rfl)
    (by rw [← after_]; rfl) fun removed => ?_⟩
  have emptyBefore : ¬ state.Holds slot removed :=
    sound.not_holds_of_lockOf (inCall.lockOf.trans lock) (inCall.pendingOf.trans passed)
  have emptyAfter : ¬ after.Holds slot removed := by
    refine soundAfter.not_holds_of_lockOf (writes.lockOf.trans movedLock) ?_
    rw [State.pendingOf, writes.calls]
    exact movedPassed
  exact iff_of_false emptyAfter emptyBefore

/-- `Push` unlocks the slot with the epoch of its item, and returns. -/
theorem storePushed {removed : Removed} (sound : Sound config state)
    (inCall : InCall config state t (.push removed) (.storeEpoch slot)) :
    Keeps config state (((state.setItem slot
      { state.items slot with removalEpoch := removed.epoch }).complete removed).setCall t none) := by
  obtain ⟨inside, -, callback, context, item⟩ := inCall.fits
  obtain ⟨nonzero, proper⟩ : removed.epoch ≠ 0 ∧ removed.epoch ≠ invalidEpoch := inCall.stamped
  generalize after_ : ((state.setItem slot
      { state.items slot with removalEpoch := removed.epoch }).complete removed).setCall t none =
    after
  have written : after.items slot = { state.items slot with removalEpoch := removed.epoch } := by
    rw [← after_]
    exact state.items_setItem_self slot _
  have unlocked : (after.items slot).removalEpoch ≠ invalidEpoch := by
    rw [written]
    exact proper
  have writes : Writes state after t slot (.storeEpoch slot) none := by
    subst after_
    exact ⟨fun u other => State.calls_setCall_of_ne _ other _, State.calls_setCall_self _ t _,
      fun other different => state.items_setItem_of_ne different _, rfl, .inl rfl,
      .inr ⟨rfl, unlocked⟩⟩
  have soundAfter : Sound config after := by
    refine writes.sound inCall sound (fun _ _ absurdly => nomatch absurdly) ?_
    rw [written]
    exact fun zero => absurd zero nonzero
  refine ⟨soundAfter, .returns slot removed inside (fun other => ?_) (fun other => ?_)
    (fun other different removed => writes.holds_iff inCall different removed)
    (by rw [← after_]; rfl) (by rw [← after_]; rfl)⟩
  · exact sound.not_holds_of_lockOf (inCall.lockOf.trans rfl) (inCall.pendingOf.trans rfl)
  · rw [soundAfter.holds_iff_of_unlocked unlocked, written]
    constructor
    · rintro ⟨carries, epoch, -⟩
      obtain ⟨otherItem, otherCallback, otherContext, otherEpoch⟩ := other
      obtain ⟨removedItem, removedCallback, removedContext, removedEpoch⟩ := removed
      simp only [Removed.mk.injEq]
      exact ⟨carries.item.symm.trans item, carries.callback.symm.trans callback,
        carries.context.symm.trans context, epoch.symm⟩
    · rintro rfl
      exact ⟨⟨callback, context, item⟩, rfl, nonzero⟩

/-- `Scavenge` leaves the slot empty. -/
theorem storeEmptied (sound : Sound config state)
    (inCall : InCall config state t .scavenge (.storeEpoch slot)) :
    Keeps config state ((state.setItem slot { state.items slot with removalEpoch := 0 }).setCall t
      (Call.scavengeFrom config.itemCount (slot + 1))) := by
  obtain ⟨inside, -, -, -, item⟩ := inCall.fits
  have unlocking : Unlocking config (Call.scavengeFrom config.itemCount (slot + 1)) :=
    unlocking_scavengeFrom (slot + 1)
  generalize after_ : (state.setItem slot { state.items slot with removalEpoch := 0 }).setCall t
      (Call.scavengeFrom config.itemCount (slot + 1)) = after
  have written : after.items slot = { state.items slot with removalEpoch := 0 } := by
    rw [← after_]
    exact state.items_setItem_self slot _
  have unlocked : (after.items slot).removalEpoch ≠ invalidEpoch := by
    rw [written]
    exact invalidEpoch_ne_zero.symm
  have writes : Writes state after t slot (.storeEpoch slot)
      (Call.scavengeFrom config.itemCount (slot + 1)) := by
    subst after_
    exact ⟨fun u other => State.calls_setCall_of_ne _ other _, State.calls_setCall_self _ t _,
      fun other different => state.items_setItem_of_ne different _, rfl, .inl rfl,
      .inr ⟨unlocking.lock, unlocked⟩⟩
  have soundAfter : Sound config after := by
    refine writes.sound inCall sound ?_ ?_
    · intro other pc here
      exact ⟨unlocking.stamped other pc here, unlocking.fits other pc here after⟩
    · rw [written]
      exact fun _ => item
  refine ⟨soundAfter, writes.same inCall (by rw [← after_]; rfl)
    (by rw [← after_]; rfl) fun removed => ?_⟩
  have emptyBefore : ¬ state.Holds slot removed :=
    sound.not_holds_of_lockOf (inCall.lockOf.trans rfl) (inCall.pendingOf.trans rfl)
  rw [soundAfter.holds_iff_of_unlocked unlocked, written]
  refine iff_of_false ?_ emptyBefore
  rintro ⟨-, zero, nonzero⟩
  exact nonzero zero.symm

end Sound

theorem State.eq_of_stepEpochs {before after : State} {action : EpochManager.Action}
    (performed : before.stepEpochs config action = some after) :
    ∃ epochs, after = { before with epochs := epochs } := by
  unfold State.stepEpochs at performed
  split at performed
  case h_2 => cases performed
  case h_1 epochs _ =>
    split at performed
    next =>
      cases performed
      exact ⟨epochs, rfl⟩
    next => cases performed

theorem State.calls_of_stepEpochs {before after : State} {action : EpochManager.Action}
    (performed : before.stepEpochs config action = some after) : after.calls = before.calls := by
  obtain ⟨epochs, rfl⟩ := State.eq_of_stepEpochs performed
  rfl

theorem State.passed_of_stepEpochs {before after : State} {action : EpochManager.Action}
    (performed : before.stepEpochs config action = some after) : after.passed = before.passed := by
  obtain ⟨epochs, rfl⟩ := State.eq_of_stepEpochs performed
  rfl

/-- A step of the epoch manager. -/
theorem Sound.epochs_of_stepEpochs {before after : State} {action : EpochManager.Action}
    (sound : Sound config before) (performed : before.stepEpochs config action = some after) :
    EpochManager.Invariant config.epochs after.epochs ∧
      after.epochs.currentEpoch < invalidEpoch := by
  unfold State.stepEpochs at performed
  split at performed
  case h_2 => cases performed
  case h_1 epochs moved =>
    split at performed
    next below =>
      cases performed
      exact ⟨(sound.epochs.next moved).1, below⟩
    next => cases performed

theorem Sound.stepEpochs {before after : State} {action : EpochManager.Action}
    (sound : Sound config before) (performed : before.stepEpochs config action = some after) :
    Keeps config before after := by
  obtain ⟨invariant, below⟩ := sound.epochs_of_stepEpochs performed
  obtain ⟨epochs, rfl⟩ := State.eq_of_stepEpochs performed
  exact ⟨⟨invariant, below, sound.stamped,
    fun u call pc here => (sound.calls u call pc here).of_same (fun _ _ => rfl) fun _ _ => rfl,
    sound.exclusive, sound.locked, sound.cleared, sound.owner⟩,
    .of_same rfl (fun _ => rfl) rfl rfl⟩

/-- Every step of a call keeps the list sound. -/
theorem Sound.stepCall {before after : State} {t : Nat} {call : Call} {pc : Pc}
    (sound : Sound config before) (here : before.calls t = some (call, pc))
    (performed : before.stepCall config t call pc = some after) : Keeps config before after := by
  have inCall := sound.inCall here
  cases pc with
  | fetchTail =>
    cases performed
    have inside := config.slot_lt before.tail
    split
    · exact sound.moveFrom inCall { before with tail := before.tail + 1 } (.bump _) rfl rfl rfl rfl
        sound.epochs sound.below rfl rfl inside
    · exact sound.moveFrom inCall { before with tail := before.tail + 1 } (.loadEpoch _) rfl rfl
        rfl rfl sound.epochs sound.below rfl rfl inside
  | bump slot =>
    obtain ⟨bumped, moved, rfl⟩ := Option.map_eq_some_iff.1 performed
    obtain ⟨invariant, below⟩ := sound.epochs_of_stepEpochs moved
    obtain ⟨epochs, rfl⟩ := State.eq_of_stepEpochs moved
    exact sound.moveFrom inCall { before with epochs := epochs } (.bumping slot) rfl rfl rfl rfl
      invariant below rfl rfl inCall.fits
  | bumping slot =>
    obtain ⟨bumped, moved, rfl⟩ := Option.map_eq_some_iff.1 performed
    obtain ⟨invariant, below⟩ := sound.epochs_of_stepEpochs moved
    obtain ⟨epochs, rfl⟩ := State.eq_of_stepEpochs moved
    split
    · exact sound.moveFrom inCall { before with epochs := epochs } (.loadEpoch slot) rfl rfl rfl rfl
        invariant below rfl rfl inCall.fits
    · exact sound.moveFrom inCall { before with epochs := epochs } (.bumping slot) rfl rfl rfl rfl
        invariant below rfl rfl inCall.fits
  | loadEpoch slot =>
    simp only [State.stepCall] at performed
    split at performed
    next passing =>
      split at performed
      next single removed kind =>
        -- the check of the unsafe list: its only thread is not inside another call
        have locked : (before.items slot).removalEpoch = invalidEpoch := by
          simpa [Call.passesBy] using passing
        obtain ⟨u, lock⟩ := sound.locked slot locked
        have inside : before.calls u ≠ none := by
          intro none_
          rw [State.lockOf, none_] at lock
          cases lock
        have same : u = t := (sound.owner single u kind inside).trans
          (inCall.owner single kind).symm
        rw [same, inCall.lockOf] at lock
        cases lock
      next =>
        cases performed
        exact sound.moveOn inCall (inCall.stamped.unlocking_retry slot) rfl rfl
    next passing =>
      cases performed
      have proper : (before.items slot).removalEpoch ≠ invalidEpoch := by
        intro same
        apply passing
        rw [same]
        cases call <;> rfl
      exact sound.move inCall rfl rfl ⟨inCall.fits, proper, fun _ => rfl⟩
  | exchange slot priorItemEpoch =>
    simp only [State.stepCall] at performed
    split at performed
    next =>
      cases performed
      exact sound.moveOn inCall (inCall.stamped.unlocking_retry slot) rfl rfl
    next matching =>
      cases performed
      refine sound.lock inCall ?_
      by_cases kind : config.kind = .garbageList
      · exact not_not.1 fun different => matching ⟨kind, different⟩
      · exact inCall.fits.2.2 kind
  | checkSafe slot priorItemEpoch =>
    cases performed
    split
    · exact sound.move inCall rfl rfl inCall.fits
    · exact sound.move inCall rfl rfl inCall.fits
  | restore slot priorItemEpoch =>
    cases performed
    exact sound.restore inCall
  | loadCallback slot priorItemEpoch =>
    cases performed
    exact sound.move inCall rfl rfl ⟨inCall.fits, rfl⟩
  | loadContext slot priorItemEpoch callback =>
    cases performed
    exact sound.move inCall rfl rfl ⟨inCall.fits.1, inCall.fits.2, rfl⟩
  | loadItem slot priorItemEpoch callback context =>
    cases performed
    exact sound.move inCall rfl rfl
      ⟨inCall.fits.1, inCall.fits.2.1, inCall.fits.2.2, rfl⟩
  | destroy slot priorItemEpoch callback context item =>
    cases performed
    exact sound.destroy inCall
  | storeCallback slot =>
    cases performed
    obtain ⟨inside, locked⟩ := inCall.fits
    refine sound.overwrite inCall rfl rfl rfl rfl _ locked fun after written => ?_
    simp only [Pc.Fits, written]
    exact ⟨inside, locked, trivial⟩
  | storeContext slot =>
    cases performed
    obtain ⟨inside, locked, callback⟩ := inCall.fits
    refine sound.overwrite inCall rfl rfl rfl rfl _ locked fun after written => ?_
    simp only [Pc.Fits, written]
    exact ⟨inside, locked, callback, trivial⟩
  | storeItem slot =>
    cases performed
    obtain ⟨inside, locked, callback, context⟩ := inCall.fits
    refine sound.overwrite inCall rfl rfl rfl rfl _ locked fun after written => ?_
    simp only [Pc.Fits, written]
    exact ⟨inside, locked, callback, context, trivial⟩
  | storeEpoch slot =>
    cases call with
    | push removed =>
      cases performed
      exact sound.storePushed inCall
    | scavenge =>
      cases performed
      exact sound.storeEmptied inCall
  | aborted => cases performed

/-- A thread calls `Push` or `Scavenge`. -/
theorem Sound.begin {state : State} {t : Nat} (sound : Sound config state)
    (ready : state.Ready config t) {frame : Option (Call × Pc)}
    (unlocking : Unlocking config frame) : Keeps config state (state.setCall t frame) := by
  obtain ⟨-, idle, kind⟩ := ready
  refine sound.of_quiet (fun u other => state.calls_setCall_of_ne other _) rfl ?_ ?_ rfl rfl
    ?_ sound.epochs sound.below ?_
  · rw [State.lockOf_setCall, unlocking.lock, State.lockOf, idle]
    rfl
  · rw [State.pendingOf_setCall, unlocking.pending, State.pendingOf, idle]
    rfl
  · intro owner here
    rcases kind with shared | single
    · rw [shared] at here
      cases here
    · rw [single] at here
      exact Kind.garbageListUnsafe.inj here
  · intro call pc here
    rw [State.calls_setCall_self] at here
    exact ⟨unlocking.stamped call pc here, unlocking.fits call pc here _⟩

/-- Every action keeps the list sound. -/
theorem Sound.next {before after : State} {action : Action}
    (sound : Sound config before) (performed : before.next config action = some after) :
    Keeps config before after := by
  cases action with
  | push t item callback context =>
    simp only [State.next, Option.ite_none_right_eq_some, Option.some.injEq] at performed
    obtain ⟨ready, rfl⟩ := performed
    have stamped : (Call.push ⟨item, callback, context, before.epochs.currentEpoch⟩).Stamped :=
      ⟨Nat.ne_of_gt (Nat.lt_of_le_of_lt (Nat.zero_le _) sound.epochs.safe_lt),
        Nat.ne_of_lt sound.below⟩
    exact sound.begin ready (stamped.unlocking_retry 0)
  | scavenge t =>
    simp only [State.next, Option.ite_none_right_eq_some, Option.some.injEq] at performed
    obtain ⟨ready, rfl⟩ := performed
    exact sound.begin ready (unlocking_scavengeFrom 0)
  | step t =>
    simp only [State.next] at performed
    split at performed
    next => cases performed
    next call pc here => exact sound.stepCall here performed
  | epoch action =>
    simp only [State.next, Option.ite_none_right_eq_some] at performed
    exact sound.stepEpochs performed.2

theorem Invariant.of_run (run : Run (system config)) (index : Nat) (inside : index ≤ run.length) :
    Invariant config (run.state index) := by
  refine run.invariant run.meets_true ?_ ?_ index inside
  · intro state initial
    rw [show state = .start config from initial]
    exact invariant_start config
  · intro before action after invariant _ performed
    have keeps := invariant.sound.next performed
    exact ⟨keeps.sound, keeps.change.conserved invariant.conserved⟩

/-! ### When a callback is called -/

/-- The slot whose item the call has found safe to reclaim, with the epoch it has asked about. -/
def Pc.accepted : Pc → Option (Nat × Nat)
  | .loadCallback slot priorItemEpoch => some (slot, priorItemEpoch)
  | .loadContext slot priorItemEpoch _ => some (slot, priorItemEpoch)
  | .loadItem slot priorItemEpoch _ _ => some (slot, priorItemEpoch)
  | .destroy slot priorItemEpoch _ _ _ => some (slot, priorItemEpoch)
  | _ => none

def State.acceptedOf (state : State) (t : Nat) : Option (Nat × Nat) :=
  (state.calls t).bind fun frame => frame.2.accepted

theorem State.acceptedOf_setCall (state : State) (t : Nat) (frame : Option (Call × Pc)) :
    (state.setCall t frame).acceptedOf t = frame.bind fun frame => frame.2.accepted := by
  rw [State.acceptedOf, State.calls_setCall_self]

theorem accepted_scavengeFrom (itemCount slot : Nat) :
    ((Call.scavengeFrom itemCount slot).bind fun frame => frame.2.accepted) = none := by
  unfold Call.scavengeFrom
  split <;> rfl

theorem accepted_retry (itemCount slot : Nat) (call : Call) :
    ((call.retry itemCount slot).bind fun frame => frame.2.accepted) = none := by
  cases call with
  | push removed => rfl
  | scavenge => exact accepted_scavengeFrom itemCount (slot + 1)

/-- A step of a call: what it does to the other calls, to the log of callbacks, and when it
accepts an item. -/
theorem State.stepCall_accepted {before after : State} {t : Nat} {call : Call} {pc : Pc}
    (performed : before.stepCall config t call pc = some after) :
    (∀ u, u ≠ t → after.calls u = before.calls u) ∧
      (after.passed = before.passed ∨ ∃ slot priorItemEpoch callback context item,
        pc = .destroy slot priorItemEpoch callback context item ∧
        after.passed = before.passed ++ [⟨item, callback, context, priorItemEpoch⟩]) ∧
      (after.acceptedOf t = none ∨ after.acceptedOf t = pc.accepted ∨
        ∃ slot priorItemEpoch, pc = .checkSafe slot priorItemEpoch ∧
          before.epochs.isSafeToReclaim priorItemEpoch = true ∧
          after.acceptedOf t = some (slot, priorItemEpoch)) := by
  have others : ∀ (state : State) frame u, u ≠ t → (state.setCall t frame).calls u = state.calls u :=
    fun state frame u other => state.calls_setCall_of_ne other frame
  cases pc with
  | fetchTail =>
    cases performed
    refine ⟨others _ _, .inl rfl, .inl ?_⟩
    rw [State.acceptedOf_setCall]
    show Pc.accepted (ite _ _ _) = none
    split <;> rfl
  | bump slot =>
    obtain ⟨bumped, moved, rfl⟩ := Option.map_eq_some_iff.1 performed
    have passed := State.passed_of_stepEpochs moved
    refine ⟨fun u other => ?_, .inl passed, .inl ?_⟩
    · rw [others _ _ u other, State.calls_of_stepEpochs moved]
    · rw [State.acceptedOf_setCall]
      rfl
  | bumping slot =>
    obtain ⟨bumped, moved, rfl⟩ := Option.map_eq_some_iff.1 performed
    have passed := State.passed_of_stepEpochs moved
    refine ⟨fun u other => ?_, .inl passed, .inl ?_⟩
    · rw [others _ _ u other, State.calls_of_stepEpochs moved]
    · rw [State.acceptedOf_setCall]
      show Pc.accepted (ite _ _ _) = none
      split <;> rfl
  | loadEpoch slot =>
    simp only [State.stepCall] at performed
    split at performed
    · split at performed
      · cases performed
        exact ⟨others _ _, .inl rfl, .inl (State.acceptedOf_setCall _ _ _)⟩
      · cases performed
        refine ⟨others _ _, .inl rfl, .inl ?_⟩
        rw [State.acceptedOf_setCall, accepted_retry]
    · cases performed
      exact ⟨others _ _, .inl rfl, .inl (State.acceptedOf_setCall _ _ _)⟩
  | exchange slot priorItemEpoch =>
    simp only [State.stepCall] at performed
    split at performed
    · cases performed
      refine ⟨others _ _, .inl rfl, .inl ?_⟩
      rw [State.acceptedOf_setCall, accepted_retry]
    · cases performed
      refine ⟨others _ _, .inl rfl, .inl ?_⟩
      rw [State.acceptedOf_setCall, State.locked]
      show Pc.accepted (ite _ _ _) = none
      split <;> rfl
  | checkSafe slot priorItemEpoch =>
    cases performed
    refine ⟨others _ _, .inl rfl, ?_⟩
    rw [State.acceptedOf_setCall]
    by_cases safe : before.epochs.isSafeToReclaim priorItemEpoch = true
    · rw [if_pos safe]
      exact .inr (.inr ⟨slot, priorItemEpoch, rfl, safe, rfl⟩)
    · rw [if_neg safe]
      exact .inl rfl
  | restore slot priorItemEpoch =>
    cases performed
    refine ⟨others _ _, .inl rfl, .inl ?_⟩
    rw [State.acceptedOf_setCall, accepted_retry]
  | loadCallback slot priorItemEpoch =>
    cases performed
    exact ⟨others _ _, .inl rfl, .inr (.inl (State.acceptedOf_setCall _ _ _))⟩
  | loadContext slot priorItemEpoch callback =>
    cases performed
    exact ⟨others _ _, .inl rfl, .inr (.inl (State.acceptedOf_setCall _ _ _))⟩
  | loadItem slot priorItemEpoch callback context =>
    cases performed
    exact ⟨others _ _, .inl rfl, .inr (.inl (State.acceptedOf_setCall _ _ _))⟩
  | destroy slot priorItemEpoch callback context item =>
    cases performed
    exact ⟨others _ _, .inr ⟨slot, priorItemEpoch, callback, context, item, rfl, rfl⟩,
      .inl (State.acceptedOf_setCall _ _ _)⟩
  | storeCallback slot =>
    cases performed
    exact ⟨others _ _, .inl rfl, .inl (State.acceptedOf_setCall _ _ _)⟩
  | storeContext slot =>
    cases performed
    exact ⟨others _ _, .inl rfl, .inl (State.acceptedOf_setCall _ _ _)⟩
  | storeItem slot =>
    cases performed
    exact ⟨others _ _, .inl rfl, .inl (State.acceptedOf_setCall _ _ _)⟩
  | storeEpoch slot =>
    cases call with
    | push removed =>
      cases performed
      exact ⟨others _ _, .inl rfl, .inl (State.acceptedOf_setCall _ _ _)⟩
    | scavenge =>
      cases performed
      refine ⟨others _ _, .inl rfl, .inl ?_⟩
      rw [State.acceptedOf_setCall, accepted_scavengeFrom]
  | aborted => cases performed

/-- A thread comes to have accepted an item in the step in which it was told that its epoch is safe
to reclaim. -/
theorem State.accepts_of_next {before after : State} {action : Action} {t slot epoch : Nat}
    (performed : before.next config action = some after)
    (notYet : before.acceptedOf t ≠ some (slot, epoch))
    (now : after.acceptedOf t = some (slot, epoch)) :
    action = .step t ∧ (∃ call, before.calls t = some (call, .checkSafe slot epoch)) ∧
      before.epochs.isSafeToReclaim epoch = true := by
  have unchanged : after.calls t = before.calls t → False := by
    intro same
    rw [State.acceptedOf, same] at now
    exact notYet now
  have begun : ∀ u frame, (frame.bind fun frame => frame.2.accepted) = none →
      after = before.setCall u frame → False := by
    intro u frame none_ same
    by_cases here : t = u
    · rw [same, here, State.acceptedOf_setCall, none_] at now
      cases now
    · exact unchanged (by rw [same, State.calls_setCall_of_ne _ here])
  cases action with
  | push u item callback context =>
    simp only [State.next, Option.ite_none_right_eq_some, Option.some.injEq] at performed
    exact absurd performed.2.symm (begun u _ rfl)
  | scavenge u =>
    simp only [State.next, Option.ite_none_right_eq_some, Option.some.injEq] at performed
    exact absurd performed.2.symm (begun u _ (accepted_scavengeFrom _ _))
  | epoch other =>
    simp only [State.next, Option.ite_none_right_eq_some] at performed
    exact absurd (congrFun (State.calls_of_stepEpochs performed.2) t) unchanged
  | step u =>
    simp only [State.next] at performed
    split at performed
    next => cases performed
    next call pc here =>
      obtain ⟨others, -, accepted⟩ := State.stepCall_accepted performed
      have same : t = u := by
        by_contra other
        exact unchanged (others t other)
      subst same
      rcases accepted with none_ | kept | ⟨checked, asked, rfl, safe, found⟩
      · rw [none_] at now
        cases now
      · rw [kept] at now
        refine absurd ?_ notYet
        rw [State.acceptedOf, here]
        exact now
      · rw [found] at now
        cases now
        exact ⟨rfl, ⟨call, here⟩, safe⟩

/-- The step at `index` is the one with which thread `t` asks whether the epoch of the item in the
slot is safe to reclaim, and is told that it is. -/
def Accepts (run : Run (system config)) (t slot epoch index : Nat) : Prop :=
  run.action index = .step t ∧
    (∃ call, (run.state index).calls t = some (call, .checkSafe slot epoch)) ∧
    (run.state index).epochs.isSafeToReclaim epoch = true

/-- The step at `index` is the one with which thread `t` passes the item of the slot to its
callback. -/
def Destroys (run : Run (system config)) (t slot : Nat) (removed : Removed) (index : Nat) : Prop :=
  run.action index = .step t ∧ ∃ call, (run.state index).calls t =
    some (call, .destroy slot removed.epoch removed.callback removed.context removed.item)

/-- Before a callback is called, the same thread has been told that the item is safe to reclaim. -/
theorem exists_accepts (run : Run (system config)) {t slot index : Nat} {removed : Removed}
    (inside : index < run.length) (destroys : Destroys run t slot removed index) :
    ∃ earlier, earlier < index ∧ Accepts run t slot removed.epoch earlier := by
  obtain ⟨-, call, here⟩ := destroys
  have initially : (run.state 0).acceptedOf t ≠ some (slot, removed.epoch) := by
    rw [show run.state 0 = .start config from run.starts]
    exact fun absurdly => nomatch absurdly
  have finally_ : (run.state index).acceptedOf t = some (slot, removed.epoch) := by
    rw [State.acceptedOf, here]
    rfl
  obtain ⟨earlier, -, before, notYet, now⟩ := exists_step_of_change
    (fun index => (run.state index).acceptedOf t = some (slot, removed.epoch)) (Nat.zero_le index)
    initially finally_
  have performed : (run.state earlier).next config (run.action earlier) = some _ :=
    run.steps earlier (Nat.lt_trans before inside)
  exact ⟨earlier, before, State.accepts_of_next performed notYet now⟩

/-- The log of callbacks grows in such steps only. -/
theorem passed_succ (run : Run (system config)) {index : Nat} (inside : index < run.length) :
    (run.state (index + 1)).passed = (run.state index).passed ∨
      ∃ t slot removed, Destroys run t slot removed index ∧
        (run.state (index + 1)).passed = (run.state index).passed ++ [removed] := by
  have performed : (run.state index).next config (run.action index) = some _ :=
    run.steps index inside
  cases action : run.action index with
  | push u item callback context =>
    rw [action] at performed
    simp only [State.next, Option.ite_none_right_eq_some, Option.some.injEq] at performed
    rw [← performed.2]
    exact .inl rfl
  | scavenge u =>
    rw [action] at performed
    simp only [State.next, Option.ite_none_right_eq_some, Option.some.injEq] at performed
    rw [← performed.2]
    exact .inl rfl
  | epoch other =>
    rw [action] at performed
    simp only [State.next, Option.ite_none_right_eq_some] at performed
    exact .inl (State.passed_of_stepEpochs performed.2)
  | step u =>
    rw [action] at performed
    simp only [State.next] at performed
    split at performed
    next => cases performed
    next call pc here =>
      rcases (State.stepCall_accepted performed).2.1 with
        same | ⟨slot, epoch, callback, context, item, rfl, grown⟩
      · exact .inl same
      · exact .inr ⟨u, slot, ⟨item, callback, context, epoch⟩, ⟨action, call, here⟩, grown⟩

/-- A step ends the call of thread `t` or stays in it, and a push ends in the step that adds it to
the pushes that have returned. -/
def Call.Continues (call : Call) (before after : State) (t : Nat) : Prop :=
  ((∃ next, after.calls t = some (call, next)) ∧ after.returned = before.returned) ∨
    after.calls t = none ∧
      ((call = .scavenge ∧ after.returned = before.returned) ∨
        ∃ removed, call = .push removed ∧ after.returned = before.returned ++ [removed])

theorem State.stepCall_continues {before after : State} {t : Nat} {call : Call} {pc : Pc}
    (performed : before.stepCall config t call pc = some after) :
    call.Continues before after t := by
  have stays : ∀ (middle : State) next, after = middle.setCall t (some (call, next)) →
      middle.returned = before.returned →
      (∃ next, after.calls t = some (call, next)) ∧ after.returned = before.returned := by
    rintro middle next rfl same
    exact ⟨⟨next, middle.calls_setCall_self t _⟩, same⟩
  have scavenges : ∀ (middle : State) slot, call = .scavenge →
      after = middle.setCall t (Call.scavengeFrom config.itemCount slot) →
      middle.returned = before.returned → call.Continues before after t := by
    rintro middle slot rfl rfl same
    unfold Call.Continues
    rw [State.calls_setCall_self]
    unfold Call.scavengeFrom
    split
    · exact .inl ⟨⟨_, rfl⟩, same⟩
    · exact .inr ⟨rfl, .inl ⟨rfl, same⟩⟩
  have retries : ∀ (middle : State) slot,
      after = middle.setCall t (call.retry config.itemCount slot) →
      middle.returned = before.returned → call.Continues before after t := by
    intro middle slot same returned
    cases call with
    | push removed => exact .inl (stays middle .fetchTail same returned)
    | scavenge => exact scavenges middle (slot + 1) rfl same returned
  cases pc with
  | bump slot =>
    obtain ⟨bumped, moved, rfl⟩ := Option.map_eq_some_iff.1 performed
    obtain ⟨epochs, rfl⟩ := State.eq_of_stepEpochs moved
    exact .inl (stays _ _ rfl rfl)
  | bumping slot =>
    obtain ⟨bumped, moved, rfl⟩ := Option.map_eq_some_iff.1 performed
    obtain ⟨epochs, rfl⟩ := State.eq_of_stepEpochs moved
    exact .inl (stays _ _ rfl rfl)
  | loadEpoch slot =>
    simp only [State.stepCall] at performed
    split at performed
    · split at performed
      · cases performed
        exact .inl (stays _ _ rfl rfl)
      · cases performed
        exact retries _ slot rfl rfl
    · cases performed
      exact .inl (stays _ _ rfl rfl)
  | exchange slot priorItemEpoch =>
    simp only [State.stepCall] at performed
    split at performed
    · cases performed
      exact retries _ slot rfl rfl
    · cases performed
      exact .inl (stays _ _ rfl rfl)
  | restore slot priorItemEpoch =>
    cases performed
    exact retries _ slot rfl rfl
  | storeEpoch slot =>
    cases call with
    | push removed =>
      cases performed
      exact .inr ⟨State.calls_setCall_self _ _ _, .inr ⟨removed, rfl, rfl⟩⟩
    | scavenge =>
      cases performed
      exact scavenges _ (slot + 1) rfl rfl rfl
  | aborted => cases performed
  | _ =>
    cases performed
    exact .inl (stays _ _ rfl rfl)

/-- When a push of the single user returns, its thread is in no call any more. -/
theorem Sound.acceptedOf_of_returned {before after : State} {action : Action} {removed : Removed}
    {owner : Nat} (sound : Sound config before)
    (performed : before.next config action = some after)
    (returned : after.returned = before.returned ++ [removed])
    (kind : config.kind = .garbageListUnsafe owner) : after.acceptedOf owner = none := by
  have grown : after.returned ≠ before.returned := by
    rw [returned]
    simp
  cases action with
  | push t item callback context =>
    simp only [State.next, Option.ite_none_right_eq_some, Option.some.injEq] at performed
    obtain ⟨-, rfl⟩ := performed
    exact absurd rfl grown
  | scavenge t =>
    simp only [State.next, Option.ite_none_right_eq_some, Option.some.injEq] at performed
    obtain ⟨-, rfl⟩ := performed
    exact absurd rfl grown
  | epoch action =>
    simp only [State.next, Option.ite_none_right_eq_some] at performed
    obtain ⟨epochs, rfl⟩ := State.eq_of_stepEpochs performed.2
    exact absurd rfl grown
  | step t =>
    simp only [State.next] at performed
    split at performed
    next => cases performed
    next call pc here =>
      rcases State.stepCall_continues performed with ⟨-, same⟩ | ⟨done, -⟩
      · exact absurd same grown
      · have same : t = owner :=
          sound.owner owner t kind (by rw [here]; exact Option.some_ne_none _)
        rw [State.acceptedOf, ← same, done]
        rfl

/-! ### Uninitialize -/

/-- What `Uninitialize` passes on, slot by slot, when no call is under way. -/
theorem Sound.count_uninitialized {state : State} (sound : Sound config state)
    (idle : ∀ t, state.calls t = none) {removed : Removed} (item : removed.item ≠ 0) (count : Nat) :
    (∀ slot, count ≤ slot →
      ((List.range count).foldl State.uninitializeSlot state).items slot = state.items slot) ∧
    open Classical in
    ((List.range count).foldl State.uninitializeSlot state).passed.count removed =
      state.passed.count removed +
        ({slot ∈ Finset.range count | state.Holds slot removed} : Finset Nat).card := by
  classical
  have unlocked : ∀ slot, (state.items slot).removalEpoch ≠ invalidEpoch := by
    intro slot locked
    obtain ⟨t, lock⟩ := sound.locked slot locked
    rw [State.lockOf, idle t] at lock
    cases lock
  induction count with
  | zero => exact ⟨fun _ _ => rfl, rfl⟩
  | succ count inductionHypothesis =>
    obtain ⟨rest, passed⟩ := inductionHypothesis
    rw [List.range_succ, List.foldl_append, List.foldl_cons, List.foldl_nil, Finset.range_add_one,
      Finset.filter_insert]
    generalize (List.range count).foldl State.uninitializeSlot state = visited at rest passed
    have here := rest count (Nat.le_refl count)
    unfold State.uninitializeSlot
    dsimp only
    rw [here]
    by_cases empty : (state.items count).removedItem = 0
    · rw [if_neg (not_not.2 empty), if_neg]
      · exact ⟨fun slot later => rest slot (Nat.le_of_succ_le later), passed⟩
      · intro holds
        exact item (holds.carries.item.symm.trans empty)
    · rw [if_pos empty]
      refine ⟨fun slot later => ?_, ?_⟩
      · rw [State.items_setItem_of_ne _ (by omega)]
        exact rest slot (Nat.le_of_succ_le later)
      · show (visited.passed ++ [_]).count removed = _
        rw [List.count_append, passed, List.count_singleton]
        by_cases same : state.Holds count removed
        · obtain ⟨carries, epoch, -⟩ := (sound.holds_iff_of_unlocked (unlocked count)).1 same
          rw [if_pos same, Finset.card_insert_of_notMem (by simp), carries.item, carries.callback,
            carries.context, epoch, if_pos (beq_self_eq_true _)]
          omega
        · rw [if_neg same]
          have different : ¬ (Removed.mk (state.items count).removedItem
              (state.items count).destroyCallback (state.items count).destroyCallbackContext
              (state.items count).removalEpoch == removed) = true := by
            intro equal
            refine same ((sound.holds_iff_of_unlocked (unlocked count)).2 ?_)
            rw [← eq_of_beq equal]
            exact ⟨⟨rfl, rfl, rfl⟩, rfl, fun zero => empty (sound.cleared count zero)⟩
          rw [if_neg different]
          omega

/-! ### Every item exactly once, and none too early -/

/-- The item waits in one slot, with its callback, its context and its epoch, and has not been
passed to its callback. -/
def State.Waits (config : Config) (state : State) (removed : Removed) : Prop :=
  (∃! slot, slot < config.itemCount ∧ state.Holds slot removed) ∧ removed ∉ state.passed

/-- The item is in no slot any more and has been passed to its callback once. -/
def State.Passed (config : Config) (state : State) (removed : Removed) : Prop :=
  (∀ slot, slot < config.itemCount → ¬ state.Holds slot removed) ∧ state.passed.count removed = 1

/-- The guarantee of a garbage list over a run. -/
structure ExactlyOnce (run : Run (system config)) : Prop where
  /-- Pushes that have returned are accounted for, also when the same object is pushed again. -/
  conserved : ∀ index, index ≤ run.length → Conserved config (run.state index)
  /-- An item that was pushed once waits in a slot or has been passed to its callback once. -/
  once : ∀ index, index ≤ run.length → ∀ removed, (run.state index).returned.count removed = 1 →
    (run.state index).Waits config removed ∨ (run.state index).Passed config removed
  /-- Callbacks are called in the steps that call them, for the item of the locked slot. -/
  called : ∀ index, index < run.length →
    (run.state (index + 1)).passed = (run.state index).passed ∨
      ∃ t slot removed, Destroys run t slot removed index ∧ (run.state index).Holds slot removed ∧
        (run.state (index + 1)).passed = (run.state index).passed ++ [removed]
  /-- A callback is called only after `IsSafeToReclaim` has returned true for the item. -/
  accepted : ∀ index, index < run.length → ∀ t slot removed, Destroys run t slot removed index →
    ∃ earlier, earlier < index ∧ Accepts run t slot removed.epoch earlier
  /-- The check of the unsafe list never fails. -/
  checks : ∀ index, index ≤ run.length → ∀ t call, (run.state index).calls t ≠ some (call, .aborted)
  /-- When no call is under way, `Uninitialize` passes on exactly what is left. -/
  uninitialized : ∀ index, index ≤ run.length → (∀ t, (run.state index).calls t = none) →
    ∀ removed, removed.item ≠ 0 →
      ( State.uninitialize config (run.state index)).passed.count removed =
        (run.state index).returned.count removed

theorem Conserved.waits_or_passed {state : State} {removed : Removed}
    (conserved : Conserved config state) (once : state.returned.count removed = 1) :
    state.Waits config removed ∨ state.Passed config removed := by
  classical
  have total := conserved removed
  have member : ∀ slot, slot ∈ state.holding config removed ↔
      slot < config.itemCount ∧ state.Holds slot removed := by
    intro slot
    unfold State.holding
    rw [Finset.mem_filter, Finset.mem_range]
  have split_ : (state.holding config removed).card = 1 ∧ state.passed.count removed = 0 ∨
      (state.holding config removed).card = 0 ∧ state.passed.count removed = 1 := by omega
  rcases split_ with ⟨one, zero⟩ | ⟨zero, one⟩
  · obtain ⟨slot, only⟩ := Finset.card_eq_one.1 one
    refine .inl ⟨⟨slot, (member slot).1 (by rw [only]; exact Finset.mem_singleton_self slot),
      fun other there => ?_⟩, List.count_eq_zero.1 zero⟩
    have here := (member other).2 there
    rw [only] at here
    exact Finset.mem_singleton.1 here
  · refine .inr ⟨fun slot inside holds => ?_, one⟩
    have here := (member slot).2 ⟨inside, holds⟩
    rw [Finset.card_eq_zero.1 zero] at here
    cases here

theorem Sound.holds_of_destroys {run : Run (system config)} {t slot index : Nat} {removed : Removed}
    (sound : Sound config (run.state index)) (destroys : Destroys run t slot removed index) :
    (run.state index).Holds slot removed := by
  obtain ⟨-, call, here⟩ := destroys
  have inCall := sound.inCall here
  exact ⟨inCall.fits.2, .inr ⟨t, inCall.pendingOf⟩⟩

/-- Every run of every garbage list passes every item to its callback exactly once and none too
early. -/
theorem exactlyOnce_of_run (run : Run (system config)) : ExactlyOnce run where
  conserved index inside := (Invariant.of_run run index inside).conserved
  once index inside removed once := (Invariant.of_run run index inside).conserved.waits_or_passed once
  called index inside := by
    rcases passed_succ run inside with same | ⟨t, slot, removed, destroys, grown⟩
    · exact .inl same
    · have sound := (Invariant.of_run run index (Nat.le_of_lt inside)).sound
      exact .inr ⟨t, slot, removed, destroys, sound.holds_of_destroys destroys, grown⟩
  accepted index inside t slot removed destroys := exists_accepts run inside destroys
  checks index inside t call here := (Invariant.of_run run index inside).sound.calls t call _ here
  uninitialized index inside idle removed item := by
    have invariant := Invariant.of_run run index inside
    have counted := (invariant.sound.count_uninitialized idle item config.itemCount).2
    rw [invariant.conserved removed, Nat.add_comm]
    exact counted

/-- A list of one slot, used by one thread. -/
def Config.single (kind : Kind) : Config where
  kind := kind
  epochs := .small .epochManager
  itemCount := 1
  powerOfTwo := ⟨0, rfl⟩
  first_lt := by decide

/-- Two pushes into the only slot: the second one passes the first item to its callback. -/
def pushTwice : List Action :=
  [Action.push 1 7 8 9] ++ List.replicate 11 (Action.step 1) ++ [Action.push 1 5 8 9] ++
    List.replicate 16 (Action.step 1)

/-- The first item has been passed to its callback, the second one waits. -/
theorem exactlyOnce_of_run_pushTwice :
    ∃ run : Run (system (.single (.garbageListUnsafe 1))),
      ExactlyOnce run ∧ (run.state 29).Passed (.single (.garbageListUnsafe 1)) ⟨7, 8, 9, 1⟩ ∧
        (run.state 29).Waits (.single (.garbageListUnsafe 1)) ⟨5, 8, 9, 2⟩ := by
  obtain ⟨run, length, states, actions⟩ := exists_run_of_next
    (fun state => state = .start (.single (.garbageListUnsafe 1)))
    (State.next (.single (.garbageListUnsafe 1))) rfl pushTwice (by decide +kernel)
  have safety := exactlyOnce_of_run run
  have returned : (run.state 29).returned = [⟨7, 8, 9, 1⟩, ⟨5, 8, 9, 2⟩] :=
    satisfies_of_replay (fun state => state.returned = [⟨7, 8, 9, 1⟩, ⟨5, 8, 9, 2⟩]) (states 29)
      (by decide +kernel)
  have passed : (run.state 29).passed = [⟨7, 8, 9, 1⟩] :=
    satisfies_of_replay (fun state => state.passed = [⟨7, 8, 9, 1⟩]) (states 29)
      (by decide +kernel)
  have inside : 29 ≤ run.length := by rw [length]; decide
  refine ⟨run, safety, ?_, ?_⟩
  · rcases safety.once 29 inside ⟨7, 8, 9, 1⟩ (by rw [returned]; decide) with waits | done
    · exact absurd (by rw [passed]; decide) waits.2
    · exact done
  · rcases safety.once 29 inside ⟨5, 8, 9, 2⟩ (by rw [returned]; decide) with waits | done
    · exact waits
    · have absurdly := done.2
      rw [passed] at absurdly
      exact absurd absurdly (by decide)

end Pmwcas.GarbageList
