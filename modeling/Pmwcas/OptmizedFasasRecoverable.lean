/-
This file carries the facts about attempts through whole runs in which no process makes more than
fifteen attempts on a location: in every state of such a run the descriptors, the tags and the
private words are as `Recoverable` says. That is what recovery finds after a crash.
-/

import Pmwcas.OptmizedFasasAttempts

namespace Pmwcas.OptmizedFasas

open Transition

variable {config : Config}

/-! ### The last attempt -/

/-- The last attempt that process `p` has begun on the location of `call` before `index`; it began
in step `first`. -/
structure Attempt (run : Run (system config)) (p : Nat) (call : Call) (first index : Nat) :
    Prop where
  before : first < index
  acts : run.action first = .step p
  compared : ∃ val, (run.state (first + 1)).procs p = .inside call (.storeOld val)
  last : ∀ between, first < between → between < index →
    ¬ BeginsAttempt run (config.offset p call.locationId) between

/-- The private word of the attempt. -/
def attemptCell (run : Run (system config)) (p : Nat) (call : Call) (first : Nat) : Nat :=
  ((run.state first).desc (config.offset p call.locationId)).privateAddress

/-- What a successful attempt leaves in its private word, by its operation type. -/
def attemptResult (run : Run (system config)) (p : Nat) (call : Call) (first : Nat) : Nat :=
  ((run.state first).desc (config.offset p call.locationId)).opType.result call.oldval

/-- In step `swap` the exchange of `call` of process `p` succeeds. -/
structure SucceedsAt (run : Run (system config)) (p : Nat) (call : Call) (swap : Nat) : Prop where
  inside : swap < run.length
  acts : run.action swap = .step p
  exchange : ∃ val newVal, (run.state swap).procs p = .inside call (.cas val newVal) ∧
    (run.state swap).mem
      ((run.state swap).desc (config.offset p call.locationId)).sharedAddress = val

/-- The last exchange of process `p` before `index` that succeeded for an attempt with the private
word of `call` is the one of `call` in step `swap`. -/
structure LastSuccess (run : Run (system config)) (p : Nat) (call : Call) (swap index : Nat) :
    Prop where
  before : swap < index
  succeeds : SucceedsAt run p call swap
  last : ∀ later call', swap < later → later < index → SucceedsAt run p call' later →
    attemptCell run p call' later ≠ attemptCell run p call swap

/-- No private word is used by two processes: `owner` says by which one. -/
def OwnPrivate (owner : Nat → Nat) (_ : State) (action : Action) : Prop :=
  ∀ p l address, action = .setPrivateAddress p l address → owner address = p

/-- A call of the process is between its exchange and the store to this private word. -/
def State.Pending (config : Config) (state : State) (p address : Nat) : Prop :=
  ∃ call pc, state.procs p = .inside call pc ∧ pc.unwritten = true ∧
    (state.desc (config.offset p call.locationId)).privateAddress = address

/-- What holds in every state of a run whose sequence numbers do not wrap. -/
structure Recoverable (run : Run (system config)) (owner : Nat → Nat) (index : Nat) : Prop where
  truthful : Truthful run index
  tags : Tags config (run.state index)
  locals : ∀ d, Local ((run.state index).desc d) (Succeeded run d index) (TookEffect run d index)
    (attempts run d index) ((run.state index).phase config d)
  begun : ∀ p call pc, (run.state index).procs p = .inside call pc → pc.began = true →
    ∃ first, first < index ∧ BeginsAttempt run (config.offset p call.locationId) first
  typed : ∀ d, (((run.state index).desc d).opType.recoverCASOp ||
    ((run.state index).desc d).opType.doubleCASOp || ((run.state index).desc d).opType.fasasOp) = true
  owned : ∀ d, ((run.state index).desc d).privateAddress ≠ 0 →
    owner ((run.state index).desc d).privateAddress = config.processOf d
  /-- A call in an attempt still has the addresses and the type it began with. -/
  current : ∀ p call first, Attempt run p call first index → ∀ call' pc,
    (run.state index).procs p = .inside call' pc → call'.locationId = call.locationId →
    pc.began = true → call' = call ∧
      ((run.state index).desc (config.offset p call.locationId)).privateAddress =
        attemptCell run p call first ∧
      ((run.state index).desc (config.offset p call.locationId)).opType.result call.oldval =
        attemptResult run p call first
  /-- Calls use private words of their process. -/
  cell : ∀ p call pc earlier, earlier ≤ index → (run.state earlier).procs p = .inside call pc →
    config.location (attemptCell run p call earlier) = none ∧
      owner (attemptCell run p call earlier) = p
  /-- A call past its exchange is the one of the last exchange of the process. -/
  swapped : ∀ p call pc, (run.state index).procs p = .inside call pc → pc.swapped = true →
    ∃ swap, swap < index ∧ SucceedsAt run p call swap ∧
      ((run.state index).desc (config.offset p call.locationId)).privateAddress =
        attemptCell run p call swap ∧
      ((run.state index).desc (config.offset p call.locationId)).opType.result call.oldval =
        attemptResult run p call swap ∧
      ∀ later call', swap < later → later < index → ¬ SucceedsAt run p call' later
  /-- Once the private word is written, it holds the result. -/
  written : ∀ p call swap, LastSuccess run p call swap index →
    ¬ (run.state index).Pending config p (attemptCell run p call swap) →
    (run.state index).mem (attemptCell run p call swap) = attemptResult run p call swap

section Steps

variable {run : Run (system config)} {owner : Nat → Nat} {index : Nat}

theorem Attempt.of_succ {p first : Nat} {call : Call} (attempt : Attempt run p call first (index + 1)) :
    first = index ∨ Attempt run p call first index ∧
      ¬ BeginsAttempt run (config.offset p call.locationId) index := by
  rcases Nat.lt_or_eq_of_le (Nat.le_of_lt_succ attempt.before) with earlier | same
  · refine .inr ⟨⟨earlier, attempt.acts, attempt.compared, fun between after below => ?_⟩, ?_⟩
    · exact attempt.last between after (Nat.lt_succ_of_lt below)
    · exact attempt.last index earlier (Nat.lt_succ_self index)
  · exact .inl same

theorem not_beginsAttempt {d p : Nat} {call : Call} {pc : Pc} (acts : run.action index = .step p)
    (inside : (run.state index).procs p = .inside call pc) (before : index < run.length)
    (other : (∀ val, (run.state (index + 1)).procs p ≠ .inside call (.storeOld val)) ∨
      d ≠ config.offset p call.locationId) : ¬ BeginsAttempt run d index := by
  rintro ⟨-, u, call', val, acts', inside', here⟩
  rw [acts] at acts'
  cases acts'
  have performed : (run.state index).next config (run.action index) =
      some (run.state (index + 1)) := run.steps index before
  rw [acts, State.next, inside] at performed
  obtain rfl := State.stepCall_call performed inside'
  rcases other with noBegin | different
  · exact noBegin val inside'
  · exact different here.symm

theorem not_beginsAttempt_of_ne {d : Nat} (other : ∀ p, run.action index ≠ .step p) :
    ¬ BeginsAttempt run d index := by
  rintro ⟨-, p, -, -, acts, -⟩
  exact other p acts

theorem not_exchanges {d p : Nat} {call : Call} {pc : Pc} (acts : run.action index = .step p)
    (inside : (run.state index).procs p = .inside call pc)
    (other : ¬ Exchanged config (run.state index) p call pc ∨ d ≠ config.offset p call.locationId) :
    ¬ Exchanges run d index := by
  rintro ⟨-, u, call', val, newVal, acts', inside', here, same⟩
  rw [acts] at acts'
  cases acts'
  rw [inside] at inside'
  cases inside'
  rcases other with noExchange | different
  · subst here
    exact noExchange ⟨val, newVal, rfl, same⟩
  · exact different here.symm

theorem not_exchanges_of_ne {d : Nat} (other : ∀ p, run.action index ≠ .step p) :
    ¬ Exchanges run d index := by
  rintro ⟨-, p, -, -, -, acts, -⟩
  exact other p acts

theorem SucceedsAt.exchanged {p swap : Nat} {call call' : Call} {pc : Pc}
    (succeeds : SucceedsAt run p call swap) (inside : (run.state swap).procs p = .inside call' pc) :
    call' = call ∧ Exchanged config (run.state swap) p call pc := by
  obtain ⟨val, newVal, here, same⟩ := succeeds.exchange
  rw [inside] at here
  cases here
  exact ⟨rfl, val, newVal, rfl, same⟩

theorem SucceedsAt.call_eq {p swap : Nat} {call call' : Call} (succeeds : SucceedsAt run p call swap)
    (succeeds' : SucceedsAt run p call' swap) : call' = call := by
  obtain ⟨val, newVal, here, -⟩ := succeeds'.exchange
  exact (succeeds.exchanged here).1

theorem LastSuccess.of_succ {p swap : Nat} {call : Call}
    (success : LastSuccess run p call swap (index + 1)) :
    swap = index ∨ LastSuccess run p call swap index := by
  rcases Nat.lt_or_eq_of_le (Nat.le_of_lt_succ success.before) with earlier | same
  · exact .inr ⟨earlier, success.succeeds, fun later call' after before =>
      success.last later call' after (Nat.lt_succ_of_lt before)⟩
  · exact .inl same

/-- The last exchange of the process for a private word, if it is the last one for any. -/
theorem LastSuccess.eq_of_last {p swap last : Nat} {call call' : Call}
    (success : LastSuccess run p call swap index) (before : last < index)
    (succeeds : SucceedsAt run p call' last)
    (cell : attemptCell run p call' last = attemptCell run p call swap)
    (none_ : ∀ later call'', last < later → later < index → ¬ SucceedsAt run p call'' later) :
    call' = call ∧ last = swap := by
  rcases Nat.lt_trichotomy swap last with later | rfl | earlier
  · exact absurd cell (success.last last call' later before succeeds)
  · exact ⟨success.succeeds.call_eq succeeds, rfl⟩
  · exact absurd success.succeeds (none_ swap call earlier success.before)

/-- A step that is no event of descriptor `d` changes nothing about its attempts. -/
theorem attempts_same {d : Nat} (noBegin : ¬ BeginsAttempt run d index)
    (noStore : ¬ StoresStatus run d index) (noExchange : ¬ Exchanges run d index) :
    (Succeeded run d (index + 1) ↔ Succeeded run d index) ∧
      (TookEffect run d (index + 1) ↔ TookEffect run d index) ∧
      attempts run d (index + 1) = attempts run d index := by
  refine ⟨⟨fun since => ?_, fun since => since.succ noBegin⟩,
    ⟨fun since => ?_, fun since => since.succ noStore⟩, attempts_succ_of_not noBegin⟩
  · exact since.of_succ.2.resolve_right noExchange
  · exact since.of_succ.2.resolve_right noExchange

/-- The events of a step of a call for its own descriptor. -/
theorem counts_of_step {p : Nat} {call : Call} {pc : Pc} (before : index < run.length)
    (acts : run.action index = .step p) (inside : (run.state index).procs p = .inside call pc)
    (begun : pc.began = true →
      ∃ first, first < index ∧ BeginsAttempt run (config.offset p call.locationId) first)
    (stored : pc.stored = true →
      ∃ first, first < index ∧ StoresStatus run (config.offset p call.locationId) first) :
    Counts ((run.state (index + 1)).procs p) call pc (Exchanged config (run.state index) p call pc)
      (Succeeded run (config.offset p call.locationId) index)
      (TookEffect run (config.offset p call.locationId) index)
      (Succeeded run (config.offset p call.locationId) (index + 1))
      (TookEffect run (config.offset p call.locationId) (index + 1))
      (attempts run (config.offset p call.locationId) index)
      (attempts run (config.offset p call.locationId) (index + 1)) := by
  have begins : ∀ val, (run.state (index + 1)).procs p = .inside call (.storeOld val) →
      BeginsAttempt run (config.offset p call.locationId) index :=
    fun val here => ⟨before, p, call, val, acts, here, rfl⟩
  have exchanges : Exchanged config (run.state index) p call pc →
      Exchanges run (config.offset p call.locationId) index := by
    rintro ⟨val, newVal, rfl, same⟩
    exact ⟨before, p, call, val, newVal, acts, inside, rfl, same⟩
  have exchanged : Exchanges run (config.offset p call.locationId) index →
      Exchanged config (run.state index) p call pc := by
    intro event
    by_contra other
    exact not_exchanges acts inside (.inl other) event
  have point : Exchanged config (run.state index) p call pc → pc.began = true ∧ pc.stored = true := by
    rintro ⟨val, newVal, rfl, -⟩
    exact ⟨rfl, rfl⟩
  refine ⟨⟨fun since => ?_, ?_⟩, ⟨fun since => ?_, ?_⟩, fun val here =>
    attempts_succ_of_begins (begins val here), fun noBegin =>
    attempts_succ_of_not (not_beginsAttempt acts inside before (.inl noBegin))⟩
  · exact ⟨fun val here => since.of_succ.1 (begins val here), since.of_succ.2.imp_right exchanged⟩
  · rintro ⟨noBegin, already | now⟩
    · exact already.succ (not_beginsAttempt acts inside before (.inl noBegin))
    · exact since_of_mark (begun (point now).1) (exchanges now)
        (not_beginsAttempt acts inside before (.inl noBegin))
  · refine ⟨fun val seqId here => ?_, since.of_succ.2.imp_right exchanged⟩
    subst here
    exact since.of_succ.1 ⟨before, p, call, val, seqId, acts, inside, rfl⟩
  · rintro ⟨noStore, already | now⟩
    · exact already.succ (not_storesStatus acts inside (.inl noStore))
    · exact since_of_mark (stored (point now).2) (exchanges now)
        (not_storesStatus acts inside (.inl noStore))

end Steps

/-! ### Every step keeps it -/

theorem Local.succ_of_shareSet {descriptor : OptmizedFASASDescriptor} {succeeded tookEffect : Prop}
    {begun : Nat} {phase : Option Pc} (holds : Local descriptor succeeded tookEffect begun phase)
    (took : tookEffect) (set : descriptor.isShareVarSet = true) : descriptor.statusInfo.succ = true := by
  cases phase with
  | none => exact holds.2.2.1 set
  | some pc =>
    cases pc with
    | storeOld | storeNew | loadSeq | storeStatus | loadVal | loadActual | helpCheckSet
    | helpCheckSeq | helpCheckAgain | helpLoadStatus | helpCas | helpCheckLast =>
      exact holds.2.2.1 set
    | clearPrivateAddrSet | clearShareVarSet | loadNewVal | cas => exact absurd took holds.2.1
    | loadStatus | storeSucc =>
      have notSet := holds.2.2.2.2
      rw [set] at notSet
      cases notSet
    | setShareVarSet | storePrivate | setPrivateAddrSet => exact holds.2.2.2.2

section Keeping

variable {run : Run (system config)} {owner : Nat → Nat} {index : Nat}

theorem Recoverable.seqId_lt {p val : Nat} {call : Call} {seqId : Fin 16}
    (recoverable : Recoverable run owner index) (few : ∀ d, attempts run d run.length ≤ 15)
    (before : index < run.length)
    (inside : (run.state index).procs p = .inside call (.storeStatus val seqId)) :
    seqId.val < 15 := by
  have sound := Sound.of_run run index (Nat.le_of_lt before)
  have ready := sound.ready p call _ inside
  have holds := recoverable.locals (config.offset p call.locationId)
  rw [State.phase_offset ready.process (fun call' pc' here => by
    rw [inside] at here; cases here; rfl), inside] at holds
  obtain ⟨-, -, -, count⟩ := holds
  obtain ⟨-, -, current⟩ := sound.fits p call _ inside
  have bound := Nat.le_trans (attempts_le (Nat.le_of_lt before))
    (few (config.offset p call.locationId))
  rw [count, current] at bound
  omega

/-- Fewer than sixteen attempts take fresh sequence numbers. -/
theorem Recoverable.fresh (recoverable : Recoverable run owner index)
    (few : ∀ d, attempts run d run.length ≤ 15) (before : index < run.length) :
    FreshSeqId config (run.state index) (run.action index) := by
  intro p call val seqId _ inside
  have sound := Sound.of_run run index (Nat.le_of_lt before)
  exact recoverable.tags.unused sound inside (recoverable.seqId_lt few before inside)

/-- The private word of a call in the state after a step is one of its process, too. -/
theorem Recoverable.cell_succ (recoverable : Recoverable run owner index) (before : index < run.length)
    (owned : ∀ d, ((run.state (index + 1)).desc d).privateAddress ≠ 0 →
      owner ((run.state (index + 1)).desc d).privateAddress = config.processOf d) :
    ∀ p call pc earlier, earlier ≤ index + 1 → (run.state earlier).procs p = .inside call pc →
      config.location (attemptCell run p call earlier) = none ∧
        owner (attemptCell run p call earlier) = p := by
  intro p call pc earlier inTime inside
  rcases Nat.lt_or_eq_of_le inTime with smaller | rfl
  · exact recoverable.cell p call pc earlier (Nat.le_of_lt_succ smaller) inside
  · have sound := Sound.of_run run (index + 1) before
    have ready := sound.ready p call pc inside
    refine ⟨sound.private_ _ ready.private_, ?_⟩
    rw [attemptCell, owned _ ready.private_, config.processOf_offset _ ready.process]

theorem Attempt.process {p first : Nat} {call : Call} (attempt : Attempt run p call first index)
    (inside : index ≤ run.length) : p < config.maximumThreadNum := by
  obtain ⟨val, here⟩ := attempt.compared
  have sound := Sound.of_run run (first + 1) (Nat.le_trans attempt.before inside)
  exact (sound.ready p call _ here).process

section OwnStep

variable {p u first : Nat} {call call' : Call} {pc : Pc}

theorem Recoverable.current_stepCall (recoverable : Recoverable run owner index)
    (before : index < run.length) (acts : run.action index = .step p)
    (inside : (run.state index).procs p = .inside call pc)
    (attempt : Attempt run u call' first (index + 1)) : ∀ call'' pc',
    (run.state (index + 1)).procs u = .inside call'' pc' → call''.locationId = call'.locationId →
    pc'.began = true → call'' = call' ∧
      ((run.state (index + 1)).desc (config.offset u call'.locationId)).privateAddress =
        attemptCell run u call' first ∧
      ((run.state (index + 1)).desc (config.offset u call'.locationId)).opType.result call'.oldval =
        attemptResult run u call' first := by
  intro call'' pc' inside' placed began
  have sound := Sound.of_run run index (Nat.le_of_lt before)
  have performed : (run.state index).next config (run.action index) =
      some (run.state (index + 1)) := run.steps index before
  rw [acts, State.next, inside] at performed
  have frames := State.stepCall_frames performed
  have writes := sound.stepCall_writes inside performed
  have kept : Kept ((run.state index).desc (config.offset u call'.locationId))
      ((run.state (index + 1)).desc (config.offset u call'.locationId)) := by
    by_cases same : config.offset u call'.locationId = config.offset p call.locationId
    · rw [same]
      exact writes.kept
    · exact (frames.desc _ same).same.kept
  rw [kept.privateAddress, kept.opType]
  rcases attempt.of_succ with rfl | ⟨earlier, noBegin⟩
  · obtain ⟨val, here⟩ := attempt.compared
    rw [inside'] at here
    cases here
    exact ⟨rfl, rfl, rfl⟩
  · by_cases same : u = p
    · subst same
      obtain rfl := State.stepCall_call performed inside'
      rcases writes.began pc' inside' began with already | ⟨val, rfl⟩
      · exact recoverable.current u call' first earlier call'' pc inside placed already
      · refine absurd ⟨before, u, call'', val, acts, inside', ?_⟩ noBegin
        rw [placed]
    · rw [frames.procs u same] at inside'
      exact recoverable.current u call' first earlier call'' pc' inside' placed began

theorem Recoverable.swapped_stepCall (recoverable : Recoverable run owner index)
    (before : index < run.length) (acts : run.action index = .step p)
    (inside : (run.state index).procs p = .inside call pc) {pc' : Pc}
    (inside' : (run.state (index + 1)).procs u = .inside call' pc') (past : pc'.swapped = true) :
    ∃ swap, swap < index + 1 ∧ SucceedsAt run u call' swap ∧
      ((run.state (index + 1)).desc (config.offset u call'.locationId)).privateAddress =
        attemptCell run u call' swap ∧
      ((run.state (index + 1)).desc (config.offset u call'.locationId)).opType.result call'.oldval =
        attemptResult run u call' swap ∧
      ∀ later call'', swap < later → later < index + 1 → ¬ SucceedsAt run u call'' later := by
  have sound := Sound.of_run run index (Nat.le_of_lt before)
  have performed : (run.state index).next config (run.action index) =
      some (run.state (index + 1)) := run.steps index before
  rw [acts, State.next, inside] at performed
  have frames := State.stepCall_frames performed
  have writes := sound.stepCall_writes inside performed
  have kept : Kept ((run.state index).desc (config.offset u call'.locationId))
      ((run.state (index + 1)).desc (config.offset u call'.locationId)) := by
    by_cases same : config.offset u call'.locationId = config.offset p call.locationId
    · rw [same]
      exact writes.kept
    · exact (frames.desc _ same).same.kept
  rw [kept.privateAddress, kept.opType]
  -- A call that was past its exchange before this step stays the last one.
  have still : ∀ {pc : Pc}, (run.state index).procs u = .inside call' pc → pc.swapped = true →
      (∀ call'', ¬ SucceedsAt run u call'' index) → ∃ swap, swap < index + 1 ∧
        SucceedsAt run u call' swap ∧
        ((run.state index).desc (config.offset u call'.locationId)).privateAddress =
          attemptCell run u call' swap ∧
        ((run.state index).desc (config.offset u call'.locationId)).opType.result call'.oldval =
          attemptResult run u call' swap ∧
        ∀ later call'', swap < later → later < index + 1 → ¬ SucceedsAt run u call'' later := by
    intro pc here already notNow
    obtain ⟨swap, earlier, succeeds, cell, result, last⟩ :=
      recoverable.swapped u call' pc here already
    refine ⟨swap, Nat.lt_succ_of_lt earlier, succeeds, cell, result, fun later call'' after below => ?_⟩
    rcases Nat.lt_or_eq_of_le (Nat.le_of_lt_succ below) with smaller | rfl
    · exact last later call'' after smaller
    · exact notNow call''
  by_cases same : u = p
  · subst same
    obtain rfl := State.stepCall_call performed inside'
    rcases sound.stepCall_cases inside performed with ⟨val, newVal, rfl, exchanged, -⟩ | passes
    · refine ⟨index, Nat.lt_succ_self index, ⟨before, acts, val, newVal, inside, exchanged⟩, rfl, rfl,
        fun later call'' after below => ?_⟩
      exact absurd (Nat.le_of_lt_succ below) (Nat.not_le_of_lt after)
    · rw [passes.inside pc' inside'] at past
      refine still inside past fun call'' succeeds => ?_
      obtain ⟨val, newVal, rfl, -⟩ := (succeeds.exchanged inside).2
      cases past
  · rw [frames.procs u same] at inside'
    refine still inside' past fun call'' succeeds => ?_
    have mover := succeeds.acts
    rw [acts] at mover
    cases mover
    exact same rfl

theorem Recoverable.written_stepCall {swap : Nat} (recoverable : Recoverable run owner index)
    (before : index < run.length) (acts : run.action index = .step p)
    (inside : (run.state index).procs p = .inside call pc)
    (success : LastSuccess run u call' swap (index + 1))
    (notPending : ¬ (run.state (index + 1)).Pending config u (attemptCell run u call' swap)) :
    (run.state (index + 1)).mem (attemptCell run u call' swap) =
      attemptResult run u call' swap := by
  have sound := Sound.of_run run index (Nat.le_of_lt before)
  have performed : (run.state index).next config (run.action index) =
      some (run.state (index + 1)) := run.steps index before
  rw [acts, State.next, inside] at performed
  have frames := State.stepCall_frames performed
  have writes := sound.stepCall_writes inside performed
  have ready := sound.ready p call pc inside
  rcases success.of_succ with rfl | earlier
  · -- The exchange of this step leaves the private word to be written.
    have mover := success.succeeds.acts
    rw [acts] at mover
    cases mover
    obtain ⟨rfl, exchanged⟩ := success.succeeds.exchanged inside
    obtain ⟨pc', inside', unwritten⟩ := writes.exchanged exchanged
    exact absurd ⟨call, pc', inside', unwritten, writes.kept.privateAddress⟩ notPending
  · obtain ⟨_, _, exchanging, -⟩ := success.succeeds.exchange
    obtain ⟨private_, owns⟩ :=
      recoverable.cell u call' _ swap (Nat.le_of_lt earlier.before) exchanging
    by_cases same : u = p
    · subst same
      by_cases here : ((run.state index).desc (config.offset u call.locationId)).privateAddress =
          attemptCell run u call' swap
      · cases unwritten : pc.unwritten with
        | true =>
          rcases writes.written unwritten with ⟨pc', inside', still⟩ | ⟨rfl, stored⟩
          · exact absurd ⟨call, pc', inside', still, writes.kept.privateAddress.trans here⟩ notPending
          · obtain ⟨last, inTime, succeeds, cell, result, none_⟩ :=
              recoverable.swapped u call _ inside rfl
            obtain ⟨rfl, rfl⟩ := earlier.eq_of_last inTime succeeds (cell.symm.trans here) none_
            obtain ⟨sameOld, -⟩ := sound.fits u call _ inside
            rw [← here, stored, ← result, OptmizedFASASDescriptor.privateValue, sameOld]
        | false =>
          have notPrivate : pc ≠ .storePrivate := by
            rintro rfl
            cases unwritten
          rw [writes.mem _ private_ notPrivate]
          refine recoverable.written u call' swap earlier ?_
          rintro ⟨call'', pc'', inside'', pending, -⟩
          rw [inside] at inside''
          cases inside''
          rw [unwritten] at pending
          cases pending
      · rw [writes.others _ private_ (Ne.symm here)]
        refine recoverable.written u call' swap earlier ?_
        rintro ⟨call'', pc'', inside'', -, there⟩
        rw [inside] at inside''
        cases inside''
        exact here there
    · have different : attemptCell run u call' swap ≠
          ((run.state index).desc (config.offset p call.locationId)).privateAddress := by
        intro here
        rw [here, recoverable.owned _ ready.private_, config.processOf_offset _ ready.process] at owns
        exact same owns.symm
      rw [writes.others _ private_ different]
      refine recoverable.written u call' swap earlier ?_
      rintro ⟨call'', pc'', inside'', pending, there⟩
      have ready'' := sound.ready u call'' pc'' inside''
      have apart := config.offset_ne call.locationId call''.locationId ready.process ready''.process same
      refine notPending ⟨call'', pc'', (frames.procs u same).trans inside'', pending, ?_⟩
      rw [(frames.desc _ apart).same.privateAddress]
      exact there

end OwnStep

theorem Recoverable.stepCall {p : Nat} {call : Call} {pc : Pc}
    (recoverable : Recoverable run owner index) (few : ∀ d, attempts run d run.length ≤ 15)
    (before : index < run.length) (acts : run.action index = .step p)
    (inside : (run.state index).procs p = .inside call pc) : Recoverable run owner (index + 1) := by
  have sound := Sound.of_run run index (Nat.le_of_lt before)
  have performed : (run.state index).next config (run.action index) =
      some (run.state (index + 1)) := run.steps index before
  rw [acts, State.next, inside] at performed
  have frames := State.stepCall_frames performed
  have writes := sound.stepCall_writes inside performed
  have ready := sound.ready p call pc inside
  have sameCall : ∀ call' pc', (run.state (index + 1)).procs p = .inside call' pc' → call' = call :=
    fun call' pc' inside' => State.stepCall_call performed inside'
  have phaseOwn := State.phase_offset ready.process sameCall
  have phaseBefore : (run.state index).phase config (config.offset p call.locationId) = some pc := by
    rw [State.phase_offset ready.process (fun call' pc' here => by
      rw [inside] at here; cases here; rfl), inside]
    rfl
  have kept : ∀ d, Kept ((run.state index).desc d) ((run.state (index + 1)).desc d) := by
    intro d
    by_cases same : d = config.offset p call.locationId
    · rw [same]
      exact writes.kept
    · exact (frames.desc d same).same.kept
  have owned : ∀ d, ((run.state (index + 1)).desc d).privateAddress ≠ 0 →
      owner ((run.state (index + 1)).desc d).privateAddress = config.processOf d := by
    intro d set
    rw [(kept d).privateAddress] at set ⊢
    exact recoverable.owned d set
  refine ⟨recoverable.truthful.succ_index before (recoverable.fresh few before), ?_, fun d => ?_,
    fun u call' pc' inside' began => ?_, fun d => ?_, owned,
    fun u call' first attempt => recoverable.current_stepCall before acts inside attempt,
    recoverable.cell_succ before owned,
    fun u call' pc' inside' past => recoverable.swapped_stepCall before acts inside inside' past,
    fun u call' swap success notPending =>
      recoverable.written_stepCall before acts inside success notPending⟩
  · by_cases store : ∃ val seqId, pc = .storeStatus val seqId
    · obtain ⟨val, seqId, rfl⟩ := store
      exact recoverable.tags.storeStatus sound inside (recoverable.seqId_lt few before inside)
        performed
    · refine recoverable.tags.stepCall sound inside performed
        (fun val seqId same => store ⟨val, seqId, same⟩) fun d val carries placed other carried set => ?_
      exact (recoverable.locals d).succ_of_shareSet
        (recoverable.truthful.helpers p call pc val d inside carries placed other carried) set
  · by_cases same : d = config.offset p call.locationId
    · subst same
      rw [phaseOwn]
      have holds := recoverable.locals (config.offset p call.locationId)
      rw [phaseBefore] at holds
      exact sound.local_stepCall inside performed holds
        (counts_of_step before acts inside (recoverable.begun p call pc inside)
          (recoverable.truthful.stored p call pc inside))
        (Nat.le_trans (attempts_le before) (few _))
    · rw [State.phase_of_frames inside frames sameCall same]
      obtain ⟨first, second, third⟩ := attempts_same
        (not_beginsAttempt acts inside before (.inr same)) (not_storesStatus acts inside (.inr same))
        (not_exchanges acts inside (.inr same))
      have holds := (recoverable.locals d).of_same (frames.desc d same).same
      rw [propext first, propext second, third]
      exact holds
  · by_cases same : u = p
    · subst same
      obtain rfl := sameCall call' pc' inside'
      rcases writes.began pc' inside' began with already | ⟨val, rfl⟩
      · obtain ⟨first, earlier, begins⟩ := recoverable.begun u call' pc inside already
        exact ⟨first, Nat.lt_succ_of_lt earlier, begins⟩
      · exact ⟨index, Nat.lt_succ_self index, before, u, call', val, acts, inside', rfl⟩
    · rw [frames.procs u same] at inside'
      obtain ⟨first, earlier, begins⟩ := recoverable.begun u call' pc' inside' began
      exact ⟨first, Nat.lt_succ_of_lt earlier, begins⟩
  · rw [(kept d).opType]
    exact recoverable.typed d

end Keeping

theorem Local.of_fields {before after : OptmizedFASASDescriptor} {succeeded tookEffect : Prop}
    {begun : Nat} {phase : Option Pc} (holds : Local before succeeded tookEffect begun phase)
    (status : after.statusInfo = before.statusInfo)
    (privateSet : after.isPrivateAddrSet = before.isPrivateAddrSet)
    (shareSet : after.isShareVarSet = before.isShareVarSet) :
    Local after succeeded tookEffect begun phase := by
  cases phase with
  | none =>
    simp only [Local, status, privateSet, shareSet] at holds ⊢
    exact holds
  | some pc =>
    cases pc <;> simp only [Local, status, privateSet, shareSet] at holds ⊢ <;> exact holds

/-- The program point of a process is the one of the owner of its descriptor. -/
theorem Sound.phase_of_inside {state : State} {p : Nat} {call : Call} {pc : Pc}
    (sound : Sound config state) (inside : state.procs p = .inside call pc) :
    state.phase config (config.offset p call.locationId) = some pc := by
  rw [State.phase_offset (sound.ready p call pc inside).process (fun call' pc' here => by
    rw [inside] at here; cases here; rfl), inside]
  rfl

section Outside

variable {run : Run (system config)} {owner : Nat → Nat} {index : Nat}

/-- A step outside of the calls. -/
theorem Recoverable.of_outside (recoverable : Recoverable run owner index)
    (few : ∀ d, attempts run d run.length ≤ 15) (before : index < run.length)
    (other : ∀ p, run.action index ≠ .step p)
    (outside : Outside config (run.state index) (run.state (index + 1)))
    (typed : ∀ d, (((run.state (index + 1)).desc d).opType.recoverCASOp ||
      ((run.state (index + 1)).desc d).opType.doubleCASOp ||
      ((run.state (index + 1)).desc d).opType.fasasOp) = true)
    (owned : ∀ d, ((run.state (index + 1)).desc d).privateAddress ≠ 0 →
      owner ((run.state (index + 1)).desc d).privateAddress = config.processOf d) :
    Recoverable run owner (index + 1) := by
  have sound := Sound.of_run run index (Nat.le_of_lt before)
  have earlier : ∀ {p first : Nat} {call : Call}, Attempt run p call first (index + 1) →
      Attempt run p call first index := by
    intro p first call attempt
    rcases attempt.of_succ with rfl | ⟨before, -⟩
    · exact absurd attempt.acts (other p)
    · exact before
  have same : ∀ d, (Succeeded run d (index + 1) ↔ Succeeded run d index) ∧
      (TookEffect run d (index + 1) ↔ TookEffect run d index) ∧
      attempts run d (index + 1) = attempts run d index :=
    fun d => attempts_same (not_beginsAttempt_of_ne other) (not_storesStatus_of_ne other)
      (not_exchanges_of_ne other)
  refine ⟨recoverable.truthful.succ_index before (recoverable.fresh few before),
    recoverable.tags.outside outside, fun d => ?_, fun u call pc inside began => ?_, typed, owned,
    fun u call first attempt call' pc inside placed began => ?_,
    recoverable.cell_succ before owned, fun u call pc inside past => ?_,
    fun u call swap success notPending => ?_⟩
  · obtain ⟨first, second, third⟩ := same d
    have holds := (recoverable.locals d).of_fields (outside.status d) (outside.privateSet d)
      (outside.shareSet d)
    rw [propext first, propext second, third]
    rcases outside.phases d with samePhase | ⟨none_, started⟩
    · rw [samePhase]
      exact holds
    · rw [none_] at holds
      rw [started]
      exact holds
  · rcases outside.procs u call pc inside with already | rfl
    · obtain ⟨first, inTime, begins⟩ := recoverable.begun u call pc already began
      exact ⟨first, Nat.lt_succ_of_lt inTime, begins⟩
    · cases began
  · rcases outside.procs u call' pc inside with already | rfl
    · have kept := outside.calls _ pc (sound.phase_of_inside already)
      rw [placed] at kept
      rw [kept.privateAddress, kept.opType]
      exact recoverable.current u call first (earlier attempt) call' pc already placed began
    · cases began
  · rcases outside.procs u call pc inside with already | rfl
    · have kept := outside.calls _ pc (sound.phase_of_inside already)
      rw [kept.privateAddress, kept.opType]
      obtain ⟨swap, inTime, succeeds, cell, result, last⟩ :=
        recoverable.swapped u call pc already past
      refine ⟨swap, Nat.lt_succ_of_lt inTime, succeeds, cell, result, fun later call' after below => ?_⟩
      rcases Nat.lt_or_eq_of_le (Nat.le_of_lt_succ below) with smaller | rfl
      · exact last later call' after smaller
      · exact fun succeeds => other u succeeds.acts
    · cases past
  · rw [outside.mem]
    rcases success.of_succ with rfl | before
    · exact absurd success.succeeds.acts (other u)
    · refine recoverable.written u call swap before ?_
      rintro ⟨call', pc, inside, pending, there⟩
      have phase := sound.phase_of_inside inside
      have kept := outside.calls _ pc phase
      rcases outside.phases (config.offset u call'.locationId) with samePhase | ⟨none_, -⟩
      · have process := (sound.ready u call' pc inside).process
        obtain ⟨call'', inside', placed⟩ := State.phase_eq_some (samePhase.trans phase)
        rw [config.processOf_offset _ process] at inside'
        rw [config.locationOf_offset _ process] at placed
        refine notPending ⟨call'', pc, inside', pending, ?_⟩
        rw [placed, kept.privateAddress]
        exact there
      · rw [none_] at phase
        cases phase

theorem Recoverable.succ_index (recoverable : Recoverable run owner index)
    (few : ∀ d, attempts run d run.length ≤ 15) (before : index < run.length)
    (own : OwnPrivate owner (run.state index) (run.action index)) :
    Recoverable run owner (index + 1) := by
  have performed : (run.state index).next config (run.action index) =
      some (run.state (index + 1)) := run.steps index before
  -- The setters change one field of one descriptor.
  have field : ∀ {Value : Type} (get : OptmizedFASASDescriptor → Value) (Holds : Nat → Value → Prop)
      {p l : Nat} {allowed : Bool} {change : OptmizedFASASDescriptor → OptmizedFASASDescriptor},
      (run.state index).set config p l allowed change = some (run.state (index + 1)) →
      (∀ d, Holds d (get ((run.state index).desc d))) →
      (allowed = true → ∀ descriptor, Holds (config.offset p l) (get descriptor) →
        Holds (config.offset p l) (get (change descriptor))) →
      ∀ d, Holds d (get ((run.state (index + 1)).desc d)) := by
    intro Value get Holds p l allowed change performed holds changed d
    simp only [State.set, Option.ite_none_right_eq_some, Option.some.injEq] at performed
    obtain ⟨⟨-, -, accepted⟩, after⟩ := performed
    rw [← after]
    by_cases here : d = config.offset p l
    · rw [here, State.setDesc_desc_self]
      exact changed accepted _ (holds _)
    · rw [State.setDesc_desc_of_ne _ here]
      exact holds d
  cases acts : run.action index with
  | step p =>
    rw [acts, State.next] at performed
    split at performed
    · next call pc inside => exact recoverable.stepCall few before acts inside
    · cases performed
  | process p call =>
    rw [acts] at performed
    have outside := State.process_outside performed
    simp only [State.next, Option.ite_none_right_eq_some, Option.some.injEq] at performed
    refine recoverable.of_outside few before (by simp [acts]) outside ?_ ?_
    · rw [← performed.2]
      exact recoverable.typed
    · rw [← performed.2]
      exact recoverable.owned
  | setSharedAddress p l address =>
    rw [acts, State.next] at performed
    refine recoverable.of_outside few before (by simp [acts])
      (State.set_outside performed (fun _ => rfl) (fun _ => rfl) (fun _ => rfl) fun _ => rfl) ?_ ?_
    · exact field (·.opType) (fun _ opType => (opType.recoverCASOp || opType.doubleCASOp ||
        opType.fasasOp) = true) performed recoverable.typed fun _ _ typed => typed
    · exact field (·.privateAddress) (fun d address => address ≠ 0 →
        owner address = config.processOf d) performed recoverable.owned fun _ _ owned => owned
  | setPrivateAddress p l address =>
    rw [acts, State.next] at performed
    refine recoverable.of_outside few before (by simp [acts])
      (State.set_outside performed (fun _ => rfl) (fun _ => rfl) (fun _ => rfl) fun _ => rfl) ?_ ?_
    · exact field (·.opType) (fun _ opType => (opType.recoverCASOp || opType.doubleCASOp ||
        opType.fasasOp) = true) performed recoverable.typed fun _ _ typed => typed
    · have process : p < config.maximumThreadNum := by
        simp only [State.set, Option.ite_none_right_eq_some] at performed
        exact performed.1.2.1
      refine field (·.privateAddress) (fun d address => address ≠ 0 →
        owner address = config.processOf d) performed recoverable.owned fun _ _ _ _ => ?_
      rw [config.processOf_offset _ process]
      exact own p l address acts
  | setOpType p l opType =>
    rw [acts, State.next] at performed
    refine recoverable.of_outside few before (by simp [acts])
      (State.set_outside performed (fun _ => rfl) (fun _ => rfl) (fun _ => rfl) fun _ => rfl) ?_ ?_
    · exact field (·.opType) (fun _ opType => (opType.recoverCASOp || opType.doubleCASOp ||
        opType.fasasOp) = true) performed recoverable.typed fun accepted _ _ => accepted
    · exact field (·.privateAddress) (fun d address => address ≠ 0 →
        owner address = config.processOf d) performed recoverable.owned fun _ _ owned => owned

end Outside

theorem recoverable_zero (run : Run (system config)) (owner : Nat → Nat) : Recoverable run owner 0 := by
  have initial : (run.state 0).Initial config := run.starts
  have phase : ∀ d, (run.state 0).phase config d = none := by
    intro d
    simp only [State.phase, initial.procs]
  have noAttempt : ∀ {p first : Nat} {call : Call}, ¬ Attempt run p call first 0 :=
    fun attempt => absurd attempt.before (Nat.not_lt_zero _)
  refine ⟨truthful_zero run, ⟨fun address d placed tag => ?_, fun u call pc val d inside => ?_,
    fun d pc here => ?_⟩, fun d => ?_, fun p call pc inside => ?_, fun d => ?_, fun d set => ?_,
    fun p call first attempt => absurd attempt noAttempt, fun p call pc earlier inTime inside => ?_,
    fun p call pc inside => ?_,
    fun p call swap success => absurd success.before (Nat.not_lt_zero swap)⟩
  · rw [processIdOf_eq_zero (initial.untagged address (by rw [placed]; simp))] at tag
    cases tag
  · rw [initial.procs] at inside
    cases inside
  · rw [phase] at here
    cases here
  · rw [phase, initial.desc]
    refine ⟨⟨fun since => ?_, fun since => ?_⟩, fun since => ?_, (by intros; contradiction), ?_⟩
    · exact absurd since (not_since_zero _ _)
    · exact absurd since (not_since_zero _ _)
    · exact absurd since (not_since_zero _ _)
    · rw [attempts, Nat.count_zero]
      rfl
  · rw [initial.procs] at inside
    cases inside
  · rw [initial.desc]
    rfl
  · rw [initial.desc] at set
    exact absurd rfl set
  · rw [Nat.le_zero.mp inTime, initial.procs] at inside
    cases inside
  · rw [initial.procs] at inside
    cases inside

/-- Every state of a run without wrapping sequence numbers is recoverable. -/
theorem Recoverable.of_run (run : Run (system config)) {owner : Nat → Nat}
    (own : run.Meets (OwnPrivate owner)) (few : ∀ d, attempts run d run.length ≤ 15)
    (index : Nat) (inside : index ≤ run.length) : Recoverable run owner index := by
  induction index with
  | zero => exact recoverable_zero run owner
  | succ index inductionHypothesis =>
    exact (inductionHypothesis (Nat.le_of_lt inside)).succ_index few inside (own index inside)

end Pmwcas.OptmizedFasas
