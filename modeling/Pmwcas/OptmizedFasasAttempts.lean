/-
This file is about runs in which no process makes more than fifteen attempts on a location, so
that sequence numbers do not wrap.

An attempt begins when `process()` has found `oldval` in the shared word, and takes effect with
its exchange. The invariant says for every descriptor what its fields are worth at each program
point of its owner, which words and calls can carry its tag, and that its private word holds the
result of the last attempt once `process()` has written it. The descriptor is updated field by
field, so between the store of `newShareVarValue_` and that of `statusInfo_` it mixes two attempts.
-/

import Mathlib.Data.Nat.Count
import Pmwcas.OptmizedFasasStatus

namespace Pmwcas.OptmizedFasas

open Transition

variable {config : Config}

/-! ### Attempts -/

/-- In this step a call on descriptor `d` gets past its comparison with `oldval`. -/
def BeginsAttempt (run : Run (system config)) (d index : Nat) : Prop :=
  index < run.length ∧ ∃ p call val, run.action index = .step p ∧
    (run.state (index + 1)).procs p = .inside call (.storeOld val) ∧
    config.offset p call.locationId = d

/-- The last attempt on descriptor `d` has succeeded in its exchange. -/
def Succeeded (run : Run (system config)) (d index : Nat) : Prop :=
  Since (BeginsAttempt run d) (Exchanges run d) index

open Classical in
/-- How many attempts on descriptor `d` have begun. -/
noncomputable def attempts (run : Run (system config)) (d index : Nat) : Nat :=
  Nat.count (BeginsAttempt run d) index

theorem attempts_succ_of_begins {run : Run (system config)} {d index : Nat}
    (begins : BeginsAttempt run d index) :
    attempts run d (index + 1) = attempts run d index + 1 := by
  rw [attempts, Nat.count_succ, if_pos begins]
  rfl

theorem attempts_succ_of_not {run : Run (system config)} {d index : Nat}
    (other : ¬ BeginsAttempt run d index) :
    attempts run d (index + 1) = attempts run d index := by
  rw [attempts, Nat.count_succ, if_neg other]
  rfl

theorem attempts_le {run : Run (system config)} {d index : Nat} (inside : index ≤ run.length) :
    attempts run d index ≤ attempts run d run.length := by
  classical
  exact Nat.count_monotone _ inside

/-! ### The program point of the owner of a descriptor -/

/-- Where the owner of descriptor `d` is, if it is in a call on `d`. -/
def State.phase (config : Config) (state : State) (d : Nat) : Option Pc :=
  match state.procs (config.processOf d) with
  | .inside call pc => if call.locationId = config.locationOf d then some pc else none
  | _ => none

theorem State.phase_eq_some {state : State} {d : Nat} {pc : Pc}
    (here : state.phase config d = some pc) :
    ∃ call, state.procs (config.processOf d) = .inside call pc ∧
      call.locationId = config.locationOf d := by
  unfold State.phase at here
  split at here
  · next call pc' inside =>
    rw [Option.ite_none_right_eq_some, Option.some.injEq] at here
    obtain ⟨same, rfl⟩ := here
    exact ⟨call, inside, same⟩
  · cases here

/-- The program point of a process. -/
def Process.point : Process → Option Pc
  | .inside _ pc => some pc
  | _ => none

theorem State.phase_offset {state : State} {p : Nat} {call : Call}
    (process : p < config.maximumThreadNum)
    (same : ∀ call' pc', state.procs p = .inside call' pc' → call' = call) :
    state.phase config (config.offset p call.locationId) = (state.procs p).point := by
  rw [State.phase, config.processOf_offset _ process]
  cases here : state.procs p with
  | idle => rfl
  | returned result => rfl
  | inside call' pc =>
    rw [same call' pc here]
    simp only [config.locationOf_offset _ process, if_true, Process.point]

/-- A step of a call moves the owner of its own descriptor only. -/
theorem State.phase_of_frames {before after : State} {p d : Nat} {call : Call} {pc : Pc}
    (inside : before.procs p = .inside call pc)
    (frames : Frames p (config.offset p call.locationId) before after)
    (same : ∀ call' pc', after.procs p = .inside call' pc' → call' = call)
    (other : d ≠ config.offset p call.locationId) :
    after.phase config d = before.phase config d := by
  by_cases own : config.processOf d = p
  · have elsewhere : call.locationId ≠ config.locationOf d := by
      intro here
      rw [← own, here, config.offset_processOf] at other
      exact other rfl
    have first : before.phase config d = none := by
      simp only [State.phase, own, inside, if_neg elsewhere]
    rw [first, State.phase, own]
    split
    · next call' pc' inside' =>
      rw [same call' pc' inside', if_neg elsewhere]
    · rfl
  · rw [State.phase, State.phase, frames.procs _ own]

/-! ### What the fields of a descriptor are worth -/

/-- What the flags of a descriptor say at each program point of its owner. `succeeded` is about the
last attempt, `tookEffect` about the one that `statusInfo_` belongs to, and `begun` counts the
attempts. -/
def Local (descriptor : OptmizedFASASDescriptor) (succeeded tookEffect : Prop) (begun : Nat) :
    Option Pc → Prop
  | some (.storeOld _) | some (.storeNew _) | some (.loadSeq _) | some (.storeStatus _ _) =>
    ¬ succeeded ∧ (tookEffect → descriptor.isPrivateAddrSet = true) ∧
      (descriptor.isShareVarSet = true → descriptor.statusInfo.succ = true) ∧
      begun = descriptor.statusInfo.seqId.val + 1
  | some (.clearPrivateAddrSet _) =>
    ¬ succeeded ∧ ¬ tookEffect ∧ begun = descriptor.statusInfo.seqId.val
  | some (.clearShareVarSet _) =>
    ¬ succeeded ∧ ¬ tookEffect ∧ begun = descriptor.statusInfo.seqId.val ∧
      descriptor.isPrivateAddrSet = false
  | some (.loadNewVal _) | some (.cas _ _) =>
    ¬ succeeded ∧ ¬ tookEffect ∧ begun = descriptor.statusInfo.seqId.val ∧
      descriptor.isPrivateAddrSet = false ∧ descriptor.isShareVarSet = false
  | some .loadStatus | some (.storeSucc _) =>
    succeeded ∧ tookEffect ∧ begun = descriptor.statusInfo.seqId.val ∧
      descriptor.isPrivateAddrSet = false ∧ descriptor.isShareVarSet = false
  | some .setShareVarSet | some .storePrivate | some .setPrivateAddrSet =>
    succeeded ∧ tookEffect ∧ begun = descriptor.statusInfo.seqId.val ∧
      descriptor.isPrivateAddrSet = false ∧ descriptor.statusInfo.succ = true
  | _ =>
    (succeeded ↔ tookEffect) ∧ (tookEffect → descriptor.isPrivateAddrSet = true) ∧
      (descriptor.isShareVarSet = true → descriptor.statusInfo.succ = true) ∧
      begun = descriptor.statusInfo.seqId.val

theorem Local.of_same {before after : OptmizedFASASDescriptor} {succeeded tookEffect : Prop}
    {begun : Nat} {phase : Option Pc} (holds : Local before succeeded tookEffect begun phase)
    (same : Helped.Same before after) : Local after succeeded tookEffect begun phase := by
  have succ := same.succ
  cases phase with
  | none =>
    simp only [Local, same.isPrivateAddrSet, same.isShareVarSet, same.seqId] at holds ⊢
    exact ⟨holds.1, holds.2.1, fun set => succ (holds.2.2.1 set), holds.2.2.2⟩
  | some pc =>
    cases pc with
    | storeOld | storeNew | loadSeq | storeStatus | loadVal | loadActual | helpCheckSet
    | helpCheckSeq | helpCheckAgain | helpLoadStatus | helpCas | helpCheckLast =>
      simp only [Local, same.isPrivateAddrSet, same.isShareVarSet, same.seqId] at holds ⊢
      exact ⟨holds.1, holds.2.1, fun set => succ (holds.2.2.1 set), holds.2.2.2⟩
    | clearPrivateAddrSet | clearShareVarSet | loadNewVal | cas | loadStatus | storeSucc =>
      simp only [Local, same.isPrivateAddrSet, same.isShareVarSet, same.seqId] at holds ⊢
      exact holds
    | setShareVarSet | storePrivate | setPrivateAddrSet =>
      simp only [Local, same.isPrivateAddrSet, same.seqId] at holds ⊢
      exact ⟨holds.1, holds.2.1, holds.2.2.1, holds.2.2.2.1, succ holds.2.2.2.2⟩

/-- The exchange of the call succeeds in its next step. -/
def Exchanged (config : Config) (state : State) (p : Nat) (call : Call) (pc : Pc) : Prop :=
  ∃ val newVal, pc = .cas val newVal ∧
    state.mem (state.desc (config.offset p call.locationId)).sharedAddress = val

/-- What a step of a call means for the attempts on its descriptor. -/
structure Counts (process : Process) (call : Call) (pc : Pc) (exchanged : Prop)
    (succeeded tookEffect succeeded' tookEffect' : Prop) (begun begun' : Nat) : Prop where
  succeeded : succeeded' ↔ (∀ val, process ≠ .inside call (.storeOld val)) ∧
    (succeeded ∨ exchanged)
  tookEffect : tookEffect' ↔ (∀ val seqId, pc ≠ .storeStatus val seqId) ∧ (tookEffect ∨ exchanged)
  began : ∀ val, process = .inside call (.storeOld val) → begun' = begun + 1
  stayed : (∀ val, process ≠ .inside call (.storeOld val)) → begun' = begun

section Counts

variable {process : Process} {call : Call} {pc : Pc} {exchanged : Prop}
  {succeeded tookEffect succeeded' tookEffect' : Prop} {begun begun' : Nat}

/-- A step that neither begins an attempt nor stores its number nor exchanges the word. -/
theorem Counts.quiet
    (counts : Counts process call pc exchanged succeeded tookEffect succeeded' tookEffect' begun
      begun')
    (stays : ∀ val, process ≠ .inside call (.storeOld val))
    (noStore : ∀ val seqId, pc ≠ .storeStatus val seqId) (noExchange : ¬ exchanged) :
    (succeeded' ↔ succeeded) ∧ (tookEffect' ↔ tookEffect) ∧ begun' = begun := by
  refine ⟨?_, ?_, counts.stayed stays⟩
  · rw [counts.succeeded]
    simp [stays, noExchange]
  · rw [counts.tookEffect]
    simp [noStore, noExchange]

theorem Counts.begins
    (counts : Counts process call pc exchanged succeeded tookEffect succeeded' tookEffect' begun
      begun')
    {val : Nat} (here : process = .inside call (.storeOld val))
    (noStore : ∀ val seqId, pc ≠ .storeStatus val seqId) (noExchange : ¬ exchanged) :
    ¬ succeeded' ∧ (tookEffect' ↔ tookEffect) ∧ begun' = begun + 1 := by
  refine ⟨?_, ?_, counts.began val here⟩
  · rw [counts.succeeded]
    exact fun both => both.1 val here
  · rw [counts.tookEffect]
    simp [noStore, noExchange]

end Counts

/-- The comparison with `oldval` begins an attempt or returns. -/
theorem Local.afterHelp {descriptor : OptmizedFASASDescriptor} {call : Call} {pc : Pc}
    {val actualValue : Nat} {exchanged succeeded tookEffect succeeded' tookEffect' : Prop}
    {begun begun' : Nat}
    (holds : (succeeded ↔ tookEffect) ∧ (tookEffect → descriptor.isPrivateAddrSet = true) ∧
      (descriptor.isShareVarSet = true → descriptor.statusInfo.succ = true) ∧
      begun = descriptor.statusInfo.seqId.val)
    (counts : Counts (State.afterHelp call val actualValue) call pc exchanged succeeded tookEffect
      succeeded' tookEffect' begun begun')
    (noStore : ∀ val seqId, pc ≠ .storeStatus val seqId) (noExchange : ¬ exchanged) :
    Local descriptor succeeded' tookEffect' begun' (State.afterHelp call val actualValue).point := by
  unfold State.afterHelp at counts ⊢
  by_cases different : actualValue ≠ call.oldval
  · rw [if_pos different] at counts ⊢
    obtain ⟨first, second, third⟩ := counts.quiet nofun noStore noExchange
    simp only [Process.point, Local, first, second, third]
    exact holds
  · rw [if_neg different] at counts ⊢
    obtain ⟨first, second, third⟩ := counts.begins rfl noStore noExchange
    simp only [Process.point, Local, second, third]
    exact ⟨first, holds.2.1, holds.2.2.1, by rw [holds.2.2.2]⟩

/-- A step without a meaning for the attempts takes the call to another point. -/
theorem Local.moved {descriptor : OptmizedFASASDescriptor} {call : Call} {pc pc' : Pc}
    {exchanged succeeded tookEffect succeeded' tookEffect' : Prop} {begun begun' : Nat}
    (after : Local descriptor succeeded tookEffect begun (some pc'))
    (counts : Counts (.inside call pc') call pc exchanged succeeded tookEffect succeeded' tookEffect'
      begun begun')
    (notOld : ∀ val, pc' ≠ .storeOld val) (noStore : ∀ val seqId, pc ≠ .storeStatus val seqId)
    (noExchange : ¬ exchanged) : Local descriptor succeeded' tookEffect' begun' (some pc') := by
  have stays : ∀ val, Process.inside call pc' ≠ .inside call (.storeOld val) := by
    intro val same
    cases same
    exact notOld val rfl
  obtain ⟨first, second, third⟩ := counts.quiet stays noStore noExchange
  rw [propext first, propext second, third]
  exact after

theorem Local.iff_of_helping {descriptor : OptmizedFASASDescriptor} {succeeded tookEffect : Prop}
    {begun : Nat} {pc : Pc} (helping : pc.helping = true) :
    Local descriptor succeeded tookEffect begun (some pc) ↔
      (succeeded ↔ tookEffect) ∧ (tookEffect → descriptor.isPrivateAddrSet = true) ∧
        (descriptor.isShareVarSet = true → descriptor.statusInfo.succ = true) ∧
        begun = descriptor.statusInfo.seqId.val := by
  cases pc <;> first | exact Iff.rfl | cases helping

section LocalSteps

variable {state state' : State} {p : Nat} {call : Call} {pc : Pc}
  {succeeded tookEffect succeeded' tookEffect' : Prop} {begun begun' : Nat}

/-- A step inside `getValueProtectedOfSharedVar` leaves the descriptor of its own call alone. -/
theorem Sound.desc_of_help (sound : Sound config state) (inside : state.procs p = .inside call pc)
    (performed : state.stepCall config p (config.offset p call.locationId) call pc = some state')
    (helping : pc.helping = true) :
    state'.desc (config.offset p call.locationId) =
      state.desc (config.offset p call.locationId) := by
  have fits := sound.fits p call pc inside
  rcases State.stepCall_help performed helping with ⟨val, actualValue, rfl⟩ | ⟨pc', -, rfl⟩ |
    ⟨val, actualValue, rfl, -, rfl⟩
  · rfl
  · rfl
  · rw [State.goto_desc, State.setDesc_desc_of_ne _ (sound.helped_ne inside fits)]

/-- Where a step inside `getValueProtectedOfSharedVar` leads. -/
theorem procs_of_help
    (performed : state.stepCall config p (config.offset p call.locationId) call pc = some state')
    (helping : pc.helping = true) :
    (∃ val actualValue, state'.procs p = State.afterHelp call val actualValue) ∨
      ∃ pc', state'.procs p = .inside call pc' ∧ pc'.helping = true := by
  rcases State.stepCall_help performed helping with ⟨val, actualValue, rfl⟩ | ⟨pc', goes, rfl⟩ |
    ⟨val, actualValue, -, -, rfl⟩
  · exact .inl ⟨val, actualValue, State.goto_procs_self ..⟩
  · exact .inr ⟨pc', State.goto_procs_self .., goes⟩
  · exact .inr ⟨_, State.goto_procs_self .., rfl⟩

theorem Sound.local_help (sound : Sound config state) (inside : state.procs p = .inside call pc)
    (performed : state.stepCall config p (config.offset p call.locationId) call pc = some state')
    (helping : pc.helping = true)
    (holds : Local (state.desc (config.offset p call.locationId)) succeeded tookEffect begun
      (some pc))
    (counts : Counts (state'.procs p) call pc (Exchanged config state p call pc) succeeded tookEffect
      succeeded' tookEffect' begun begun') :
    Local (state'.desc (config.offset p call.locationId)) succeeded' tookEffect' begun'
      (state'.procs p).point := by
  have noStore : ∀ val seqId, pc ≠ .storeStatus val seqId := by
    rintro val seqId rfl
    cases helping
  have noExchange : ¬ Exchanged config state p call pc := by
    rintro ⟨val, newVal, rfl, -⟩
    cases helping
  rw [Local.iff_of_helping helping] at holds
  rw [sound.desc_of_help inside performed helping]
  rcases procs_of_help performed helping with ⟨val, actualValue, here⟩ | ⟨pc', here, helping'⟩
  · rw [here] at counts ⊢
    exact Local.afterHelp holds counts noStore noExchange
  · rw [here] at counts ⊢
    refine Local.moved ((Local.iff_of_helping helping').2 holds) counts ?_ noStore noExchange
    rintro val rfl
    cases helping'

/-- The store of the sequence number, with which the descriptor belongs to the new attempt. -/
theorem Sound.local_storeStatus {val : Nat} {seqId : Fin 16} (sound : Sound config state)
    (inside : state.procs p = .inside call (.storeStatus val seqId))
    (performed : state.stepCall config p (config.offset p call.locationId) call
      (.storeStatus val seqId) = some state')
    (holds : Local (state.desc (config.offset p call.locationId)) succeeded tookEffect begun
      (some (.storeStatus val seqId)))
    (counts : Counts (state'.procs p) call (.storeStatus val seqId)
      (Exchanged config state p call (.storeStatus val seqId)) succeeded tookEffect succeeded'
      tookEffect' begun begun')
    (bound : begun' ≤ 15) :
    Local (state'.desc (config.offset p call.locationId)) succeeded' tookEffect' begun'
      (state'.procs p).point := by
  obtain ⟨-, -, sameSeq⟩ := sound.fits p call _ inside
  cases performed
  rw [State.goto_procs_self] at counts
  have stayed := counts.stayed (by simp)
  have noEffect : ¬ tookEffect' := fun took => (counts.tookEffect.1 took).1 val seqId rfl
  have notYet : ¬ succeeded' := by
    rw [counts.succeeded]
    simp [Exchanged, holds.1]
  rw [State.goto_procs_self, State.goto_desc, State.setDesc_desc_self]
  refine ⟨notYet, noEffect, ?_⟩
  obtain ⟨-, -, -, count⟩ := holds
  rw [sameSeq] at count
  show begun' = (seqId + 1).val
  rw [stayed, count, Fin.val_add, Nat.mod_eq_of_lt]
  · rfl
  · show seqId.val + 1 < 16
    omega

/-- The exchange, with which the attempt takes effect. -/
theorem local_cas {val newVal : Nat}
    (performed : state.stepCall config p (config.offset p call.locationId) call (.cas val newVal) =
      some state')
    (holds : Local (state.desc (config.offset p call.locationId)) succeeded tookEffect begun
      (some (.cas val newVal)))
    (counts : Counts (state'.procs p) call (.cas val newVal)
      (Exchanged config state p call (.cas val newVal)) succeeded tookEffect succeeded' tookEffect'
      begun begun') :
    Local (state'.desc (config.offset p call.locationId)) succeeded' tookEffect' begun'
      (state'.procs p).point := by
  rw [State.stepCall] at performed
  split at performed <;> cases performed
  · next same =>
    have exchanged : Exchanged config state p call (.cas val newVal) := ⟨val, newVal, rfl, same⟩
    rw [State.goto_procs_self] at counts
    have stayed := counts.stayed (by simp)
    have done : succeeded' := counts.succeeded.2 ⟨by simp, .inr exchanged⟩
    have took : tookEffect' := counts.tookEffect.2 ⟨by simp, .inr exchanged⟩
    simp only [State.goto_procs_self, Process.point, State.goto_desc, Local, stayed]
    exact ⟨done, took, holds.2.2⟩
  · next different =>
    have noExchange : ¬ Exchanged config state p call (.cas val newVal) := by
      rintro ⟨val', newVal', here, there⟩
      cases here
      exact different there
    rw [State.goto_procs_self] at counts
    obtain ⟨first, second, third⟩ := counts.quiet (by simp) (by simp) noExchange
    simp only [Local] at holds
    simp [Process.point, Local, first, second, third, holds]

/-- A step of a call keeps the meaning of the fields of its own descriptor. -/
theorem Sound.local_stepCall (sound : Sound config state)
    (inside : state.procs p = .inside call pc)
    (performed : state.stepCall config p (config.offset p call.locationId) call pc = some state')
    (holds : Local (state.desc (config.offset p call.locationId)) succeeded tookEffect begun
      (some pc))
    (counts : Counts (state'.procs p) call pc (Exchanged config state p call pc) succeeded tookEffect
      succeeded' tookEffect' begun begun')
    (bound : begun' ≤ 15) :
    Local (state'.desc (config.offset p call.locationId)) succeeded' tookEffect' begun'
      (state'.procs p).point := by
  have fits := sound.fits p call pc inside
  cases pc with
  | loadVal | loadActual | helpCheckSet | helpCheckSeq | helpCheckAgain | helpLoadStatus | helpCas
  | helpCheckLast => exact sound.local_help inside performed rfl holds counts
  | storeStatus => exact sound.local_storeStatus inside performed holds counts bound
  | cas => exact local_cas performed holds counts
  | loadSeq | loadNewVal | loadStatus =>
    cases performed
    rw [State.goto_procs_self] at counts ⊢
    exact Local.moved holds counts (by simp) (by simp) (by simp [Exchanged])
  | storePrivate =>
    cases performed
    rw [State.goto_procs_self] at counts ⊢
    rw [State.goto_desc, State.storeWord_desc]
    exact Local.moved holds counts (by simp) (by simp) (by simp [Exchanged])
  | storeOld | storeNew | setShareVarSet =>
    cases performed
    rw [State.goto_procs_self] at counts ⊢
    rw [State.goto_desc, State.setDesc_desc_self]
    exact Local.moved holds counts (by simp) (by simp) (by simp [Exchanged])
  | clearPrivateAddrSet =>
    cases performed
    obtain ⟨notYet, noEffect, count⟩ := holds
    rw [State.goto_procs_self] at counts ⊢
    rw [State.goto_desc, State.setDesc_desc_self]
    exact Local.moved ⟨notYet, noEffect, count, rfl⟩ counts (by simp) (by simp) (by simp [Exchanged])
  | clearShareVarSet =>
    cases performed
    obtain ⟨notYet, noEffect, count, cleared⟩ := holds
    rw [State.goto_procs_self] at counts ⊢
    rw [State.goto_desc, State.setDesc_desc_self]
    exact Local.moved ⟨notYet, noEffect, count, cleared, rfl⟩ counts (by simp) (by simp)
      (by simp [Exchanged])
  | storeSucc tmpStatus =>
    cases performed
    obtain ⟨done, took, count, notSet, -⟩ := holds
    rw [fits.2.2] at count
    rw [State.goto_procs_self] at counts ⊢
    rw [State.goto_desc, State.setDesc_desc_self]
    exact Local.moved ⟨done, took, count, notSet, rfl⟩ counts (by simp) (by simp)
      (by simp [Exchanged])
  | setPrivateAddrSet =>
    cases performed
    rw [State.goto_procs_self] at counts
    obtain ⟨first, second, third⟩ := counts.quiet (by simp) (by simp) (by simp [Exchanged])
    rw [State.goto_procs_self, State.goto_desc, State.setDesc_desc_self]
    simp only [Process.point, Local, first, second, third]
    exact ⟨⟨fun _ => holds.2.1, fun _ => holds.1⟩, fun _ => trivial, fun _ => holds.2.2.2.2,
      holds.2.2.1⟩

end LocalSteps

/-! ### Tags -/

/-- The value of the first load that a call still holds. -/
def Pc.held : Pc → Option Nat
  | .loadActual val | .helpCheckSet val _ | .helpCheckSeq val _ | .helpCheckAgain val _
  | .helpLoadStatus val _ | .helpCas val _ | .helpCheckLast val _ | .storeOld val | .storeNew val
  | .loadSeq val | .storeStatus val _ | .clearPrivateAddrSet val | .clearShareVarSet val
  | .loadNewVal val | .cas val _ => some val
  | _ => none

/-- The call has helped, if it had to. -/
def Pc.past : Pc → Bool
  | .helpCheckLast _ _ | .storeOld _ | .storeNew _ | .loadSeq _ | .storeStatus _ _
  | .clearPrivateAddrSet _ | .clearShareVarSet _ | .loadNewVal _ | .cas _ _ => true
  | _ => false

/-- Why a call with this value has nothing left to help. -/
def Excused (config : Config) (state : State) (p : Nat) (call : Call) (val : Nat) : Prop :=
  processIdOf val = 0 ∨ processIdOf val = p + 1 ∨
    (state.desc (config.offset (processIdOf val - 1) call.locationId)).isShareVarSet = true ∨
    seqIdOf val ≠
      (state.desc (config.offset (processIdOf val - 1) call.locationId)).statusInfo.seqId ∨
    (state.desc (config.offset (processIdOf val - 1) call.locationId)).statusInfo.succ = true

/-- Where the value that a call holds comes from. -/
structure Holds (config : Config) (state state' : State) (p : Nat) (call : Call) (pc : Pc) (val : Nat)
    (pc' : Pc) : Prop where
  source : pc.held = some val ∨
    val = state.mem (state.desc (config.offset p call.locationId)).sharedAddress ∧ pc'.past = false
  past : pc'.past = true → pc.past = true ∨ Excused config state' p call val

theorem excused_of_status {status : StatusInfo} {seqId : Fin 16} (decided : ¬ status = ⟨seqId, false⟩) :
    seqId ≠ status.seqId ∨ status.succ = true := by
  obtain ⟨current, succ⟩ := status
  cases succ with
  | true => exact .inr rfl
  | false =>
    refine .inl ?_
    rintro rfl
    exact decided rfl

/-- The call goes on with the value it holds. -/
theorem Holds.of_goto {state after : State} {p : Nat} {call : Call} {pc next pc' : Pc} {val : Nat}
    (inside' : (after.goto p (.inside call next)).procs p = .inside call pc')
    (held : pc'.held = some val) (kept : next.held = pc.held)
    (past : next.past = true →
      pc.past = true ∨ Excused config (after.goto p (.inside call next)) p call val) :
    Holds config state (after.goto p (.inside call next)) p call pc val pc' := by
  rw [State.goto_procs_self] at inside'
  cases inside'
  exact ⟨.inl (kept.symm.trans held), past⟩

/-- The call compares the value with `oldval`. -/
theorem Holds.of_afterHelp {state after : State} {p value actualValue : Nat} {call : Call}
    {pc pc' : Pc} {val : Nat}
    (inside' : (after.goto p (State.afterHelp call value actualValue)).procs p = .inside call pc')
    (held : pc'.held = some val) (before : pc.held = some value)
    (past : actualValue = call.oldval → pc.past = true ∨
      Excused config (after.goto p (State.afterHelp call value actualValue)) p call value) :
    Holds config state (after.goto p (State.afterHelp call value actualValue)) p call pc val pc' := by
  rw [State.goto_procs_self] at inside'
  obtain ⟨-, rfl, same⟩ := State.afterHelp_inside inside'
  cases held
  exact ⟨.inl before, fun _ => past same⟩

theorem Sound.stepCall_held {state state' : State} {p : Nat} {call : Call} {pc pc' : Pc} {val : Nat}
    (sound : Sound config state) (inside : state.procs p = .inside call pc)
    (performed : state.stepCall config p (config.offset p call.locationId) call pc = some state')
    (inside' : state'.procs p = .inside call pc') (held : pc'.held = some val) :
    Holds config state state' p call pc val pc' := by
  have ready := sound.ready p call pc inside
  cases pc with
  | loadVal =>
    cases performed
    rw [State.goto_procs_self] at inside'
    cases inside'
    cases held
    exact ⟨.inr ⟨rfl, rfl⟩, (by intros; contradiction)⟩
  | loadActual value =>
    rw [State.stepCall] at performed
    split at performed
    · simp only [Option.bind_eq_some_iff, Option.some.injEq] at performed
      obtain ⟨-, -, rfl⟩ := performed
      exact .of_goto inside' held rfl (by intros; contradiction)
    · next noHelp =>
      cases performed
      refine .of_afterHelp inside' held rfl fun _ => .inr ?_
      have own := sound.processId (config.offset p call.locationId)
      rw [config.processOf_offset _ ready.process] at own
      rw [own, not_and_or, not_not, not_not] at noHelp
      rcases noHelp with none_ | mine
      · exact .inl none_
      · exact .inr (.inl mine)
  | helpCheckSet value actualValue =>
    rw [State.stepCall] at performed
    split at performed
    · next set =>
      cases performed
      exact .of_afterHelp inside' held rfl fun _ => .inr (.inr (.inr (.inl set)))
    · cases performed
      exact .of_goto inside' held rfl (by intros; contradiction)
  | helpCheckSeq value actualValue =>
    rw [State.stepCall] at performed
    split at performed
    · next different =>
      cases performed
      exact .of_afterHelp inside' held rfl fun _ => .inr (.inr (.inr (.inr (.inl different))))
    · cases performed
      exact .of_goto inside' held rfl (by intros; contradiction)
  | helpCheckAgain value actualValue =>
    rw [State.stepCall] at performed
    split at performed
    · next set =>
      cases performed
      exact .of_afterHelp inside' held rfl fun _ => .inr (.inr (.inr (.inl set)))
    · split at performed
      · next different =>
        cases performed
        exact .of_afterHelp inside' held rfl fun same => absurd same.symm different
      · cases performed
        exact .of_goto inside' held rfl (by intros; contradiction)
  | helpLoadStatus value actualValue =>
    rw [State.stepCall] at performed
    split at performed
    · cases performed
      exact .of_goto inside' held rfl (by intros; contradiction)
    · next decided =>
      cases performed
      refine .of_goto inside' held rfl fun _ => .inr ?_
      rw [State.goto_procs_self] at inside'
      cases inside'
      cases held
      exact .inr (.inr (.inr (excused_of_status decided)))
  | helpCas value actualValue =>
    rw [State.stepCall] at performed
    split at performed
    · cases performed
      refine .of_goto inside' held rfl fun _ => .inr ?_
      rw [State.goto_procs_self] at inside'
      cases inside'
      cases held
      refine .inr (.inr (.inr (.inr ?_)))
      rw [State.goto_desc, State.setDesc_desc_self]
    · next decided =>
      cases performed
      refine .of_goto inside' held rfl fun _ => .inr ?_
      rw [State.goto_procs_self] at inside'
      cases inside'
      cases held
      exact .inr (.inr (.inr (excused_of_status decided)))
  | helpCheckLast value actualValue =>
    cases performed
    exact .of_afterHelp inside' held rfl fun _ => .inl rfl
  | cas value newVal =>
    rw [State.stepCall] at performed
    split at performed <;> cases performed <;> rw [State.goto_procs_self] at inside' <;>
      cases inside'
    cases held
  | storeOld | storeNew | loadSeq | storeStatus | clearPrivateAddrSet | clearShareVarSet
  | loadNewVal =>
    cases performed
    exact .of_goto inside' held rfl fun _ => .inl rfl
  | loadStatus | storeSucc | setShareVarSet | storePrivate | setPrivateAddrSet =>
    cases performed
    rw [State.goto_procs_self] at inside'
    cases inside' <;> cases held

/-- The new value of the next attempt is stored, and its sequence number is not. -/
def Pc.mixed : Pc → Bool
  | .loadSeq _ | .storeStatus _ _ => true
  | _ => false

/-- The word is exchanged, and the success of the call is not stored. -/
def Pc.unfinished : Pc → Bool
  | .loadStatus | .storeSucc _ => true
  | _ => false

/-- What a step of a call, other than the store of its sequence number, does to its descriptor. -/
structure Updates (config : Config) (state state' : State) (p : Nat) (call : Call) (pc : Pc) :
    Prop where
  succ : (state.desc (config.offset p call.locationId)).statusInfo.succ = true →
    (state'.desc (config.offset p call.locationId)).statusInfo.succ = true
  newValue : ((state'.desc (config.offset p call.locationId)).newShareVarValue =
      (state.desc (config.offset p call.locationId)).newShareVarValue ∧ pc.mixed = false) ∨
    ∃ pc', state'.procs p = .inside call pc' ∧ pc'.mixed = true
  unfinished : ∀ pc', state'.procs p = .inside call pc' → pc'.unfinished = true →
    Exchanged config state p call pc ∨
      pc.unfinished = true ∧ state'.mem = state.mem ∧ state'.desc = state.desc

theorem Updates.of_goto {state : State} {p : Nat} {call : Call} {pc : Pc} {process : Process}
    (notMixed : pc.mixed = false)
    (finished : ∀ pc', process = .inside call pc' → pc'.unfinished = false) :
    Updates config state (state.goto p process) p call pc where
  succ succ := succ
  newValue := .inl ⟨rfl, notMixed⟩
  unfinished pc' here unfinished := by
    rw [State.goto_procs_self] at here
    rw [finished pc' here] at unfinished
    cases unfinished

theorem Updates.of_write {state : State} {p : Nat} {call : Call} {pc : Pc} {process : Process}
    {descriptor : OptmizedFASASDescriptor} (notMixed : pc.mixed = false)
    (succ : (state.desc (config.offset p call.locationId)).statusInfo.succ = true →
      descriptor.statusInfo.succ = true)
    (newValue : descriptor.newShareVarValue =
      (state.desc (config.offset p call.locationId)).newShareVarValue)
    (finished : ∀ pc', process = .inside call pc' → pc'.unfinished = false) :
    Updates config state
      ((state.setDesc (config.offset p call.locationId) descriptor).goto p process) p call pc where
  succ before := by
    rw [State.goto_desc, State.setDesc_desc_self]
    exact succ before
  newValue := .inl ⟨by rw [State.goto_desc, State.setDesc_desc_self, newValue], notMixed⟩
  unfinished pc' here unfinished := by
    rw [State.goto_procs_self] at here
    rw [finished pc' here] at unfinished
    cases unfinished

/-- A step inside `getValueProtectedOfSharedVar`. -/
theorem Sound.updates_of_help {state state' : State} {p : Nat} {call : Call} {pc : Pc}
    (sound : Sound config state) (inside : state.procs p = .inside call pc)
    (performed : state.stepCall config p (config.offset p call.locationId) call pc = some state')
    (helping : pc.helping = true) : Updates config state state' p call pc where
  succ succ := by
    rw [sound.desc_of_help inside performed helping]
    exact succ
  newValue := by
    refine .inl ⟨by rw [sound.desc_of_help inside performed helping], ?_⟩
    cases pc <;> first | rfl | cases helping
  unfinished pc' here unfinished := by
    rcases procs_of_help performed helping with ⟨val, actualValue, goes⟩ | ⟨pc'', goes, helping'⟩
    · rw [goes] at here
      obtain ⟨-, rfl, -⟩ := State.afterHelp_inside here
      cases unfinished
    · rw [goes] at here
      cases here
      have finished : pc'.unfinished = false := by
        cases pc' <;> first | rfl | cases helping'
      rw [finished] at unfinished
      cases unfinished

theorem Sound.stepCall_updates {state state' : State} {p : Nat} {call : Call} {pc : Pc}
    (sound : Sound config state) (inside : state.procs p = .inside call pc)
    (performed : state.stepCall config p (config.offset p call.locationId) call pc = some state')
    (noStore : ∀ val seqId, pc ≠ .storeStatus val seqId) :
    Updates config state state' p call pc := by
  cases pc with
  | loadVal | loadActual | helpCheckSet | helpCheckSeq | helpCheckAgain | helpLoadStatus | helpCas
  | helpCheckLast =>
    exact sound.updates_of_help inside performed rfl
  | loadNewVal =>
    cases performed
    refine .of_goto rfl fun pc' here => ?_
    cases here
    rfl
  | storeOld val | clearPrivateAddrSet val | clearShareVarSet val | setShareVarSet =>
    cases performed
    refine .of_write rfl (fun succ => succ) rfl fun pc' here => ?_
    cases here
    rfl
  | storeNew val =>
    cases performed
    refine ⟨fun succ => ?_, .inr ⟨_, State.goto_procs_self .., rfl⟩, fun pc' here unfinished => ?_⟩
    · rw [State.goto_desc, State.setDesc_desc_self]
      exact succ
    · rw [State.goto_procs_self] at here
      cases here
      cases unfinished
  | loadSeq val =>
    cases performed
    refine ⟨fun succ => succ, .inr ⟨_, State.goto_procs_self .., rfl⟩, fun pc' here unfinished => ?_⟩
    rw [State.goto_procs_self] at here
    cases here
    cases unfinished
  | storeStatus val seqId => exact absurd rfl (noStore val seqId)
  | cas val newVal =>
    rw [State.stepCall] at performed
    split at performed <;> cases performed
    · next same =>
      exact ⟨fun succ => succ, .inl ⟨rfl, rfl⟩, fun _ _ _ => .inl ⟨val, newVal, rfl, same⟩⟩
    · exact .of_goto rfl (by intros; contradiction)
  | loadStatus =>
    cases performed
    exact ⟨fun succ => succ, .inl ⟨rfl, rfl⟩, fun _ _ _ => .inr ⟨rfl, rfl, rfl⟩⟩
  | storeSucc tmpStatus =>
    cases performed
    refine .of_write rfl (fun _ => rfl) rfl fun pc' here => ?_
    cases here
    rfl
  | storePrivate =>
    cases performed
    refine ⟨fun succ => succ, .inl ⟨rfl, rfl⟩, fun pc' here unfinished => ?_⟩
    rw [State.goto_procs_self] at here
    cases here
    cases unfinished
  | setPrivateAddrSet =>
    cases performed
    exact .of_write rfl (fun succ => succ) rfl (by intros; contradiction)

/-- Which words and calls can carry the tag of a descriptor, while sequence numbers do not wrap. -/
structure Tags (config : Config) (state : State) : Prop where
  words : ∀ address d, config.location address = some (config.locationOf d) →
    processIdOf (state.mem address) = config.processOf d + 1 →
    (seqIdOf (state.mem address)).val ≤ (state.desc d).statusInfo.seqId.val ∧
      (seqIdOf (state.mem address) = (state.desc d).statusInfo.seqId →
        actualValueOf (state.mem address) = (state.desc d).newShareVarValue ∨
          ∃ pc, state.phase config d = some pc ∧ pc.mixed = true)
  held : ∀ u call pc val d, state.procs u = .inside call pc → pc.held = some val →
    call.locationId = config.locationOf d → u ≠ config.processOf d →
    processIdOf val = config.processOf d + 1 →
    (seqIdOf val).val ≤ (state.desc d).statusInfo.seqId.val ∧
      (pc.past = true → seqIdOf val = (state.desc d).statusInfo.seqId →
        (state.desc d).statusInfo.succ = true)
  unfinished : ∀ d pc, state.phase config d = some pc → pc.unfinished = true →
    (state.desc d).statusInfo.succ = true ∨
      state.CarriesTag config d (state.mem (state.desc d).sharedAddress)

theorem Pc.carries_of_held {pc : Pc} {val : Nat} (held : pc.held = some val) (early : pc.past = false) :
    pc.carries = some val := by
  cases pc <;> first | exact held | cases early

theorem Pc.swapped_of_unfinished {pc : Pc} (unfinished : pc.unfinished = true) :
    pc.swapped = true := by
  cases pc <;> first | rfl | cases unfinished

/-- The word that a call swaps in: its tag and its value. -/
theorem Sound.newVal {state : State} {p val newVal : Nat} {call : Call} (sound : Sound config state)
    (inside : state.procs p = .inside call (.cas val newVal)) :
    processIdOf newVal = p + 1 ∧
      seqIdOf newVal = (state.desc (config.offset p call.locationId)).statusInfo.seqId ∧
      actualValueOf newVal =
        (state.desc (config.offset p call.locationId)).newShareVarValue := by
  have ready := sound.ready p call _ inside
  obtain ⟨-, sameNew, made⟩ := sound.fits p call _ inside
  have own := sound.processId (config.offset p call.locationId)
  rw [config.processOf_offset _ ready.process] at own
  rw [own] at made
  have id : p + 1 < 2 ^ 12 := by
    have bound := config.small
    have inRange := ready.process
    omega
  rw [made, processIdOf_taggedValue id ready.newval, seqIdOf_taggedValue id ready.newval,
    actualValueOf_taggedValue id ready.newval, sameNew]
  exact ⟨rfl, rfl, rfl⟩

/-- The owner of a descriptor is in a call on it. -/
theorem Sound.offset_of_phase {state : State} {d : Nat} {pc : Pc} (sound : Sound config state)
    (here : state.phase config d = some pc) :
    ∃ call, state.procs (config.processOf d) = .inside call pc ∧
      config.offset (config.processOf d) call.locationId = d ∧ (state.desc d).sharedAddress ≠ 0 := by
  obtain ⟨call, inside, placed⟩ := State.phase_eq_some here
  have same : config.offset (config.processOf d) call.locationId = d := by
    rw [placed, config.offset_processOf]
  refine ⟨call, inside, same, ?_⟩
  have shared := (sound.ready _ call pc inside).shared
  rw [same] at shared
  exact shared

section TagSteps

variable {state state' : State} {p : Nat} {call : Call} {pc : Pc}

/-- The calls of the process are this one. -/
theorem Sound.phase_own (sound : Sound config state) (inside : state.procs p = .inside call pc) :
    state.phase config (config.offset p call.locationId) = some pc := by
  rw [State.phase_offset (sound.ready p call pc inside).process fun call' pc' here => by
    rw [inside] at here
    cases here
    rfl, inside]
  rfl

theorem Sound.phase_own_after (sound : Sound config state)
    (inside : state.procs p = .inside call pc)
    (performed : state.stepCall config p (config.offset p call.locationId) call pc = some state') :
    state'.phase config (config.offset p call.locationId) = (state'.procs p).point :=
  State.phase_offset (sound.ready p call pc inside).process fun _ _ inside' =>
    State.stepCall_call performed inside'

theorem Sound.location_own (sound : Sound config state) (inside : state.procs p = .inside call pc) :
    config.location (state.desc (config.offset p call.locationId)).sharedAddress =
      some call.locationId := by
  have ready := sound.ready p call pc inside
  rw [sound.shared _ ready.shared, config.locationOf_offset _ ready.process]

/-- The sequence numbers stay. -/
theorem Sound.stepCall_seqId (sound : Sound config state)
    (inside : state.procs p = .inside call pc)
    (performed : state.stepCall config p (config.offset p call.locationId) call pc = some state')
    (noStore : ∀ val seqId, pc ≠ .storeStatus val seqId) (d : Nat) :
    (state'.desc d).statusInfo.seqId = (state.desc d).statusInfo.seqId := by
  by_cases same : d = config.offset p call.locationId
  · rw [same]
    exact (sound.stepCall_changes inside performed).seqId noStore
  · exact ((State.stepCall_frames performed).desc d same).same.seqId

/-- A descriptor that says success goes on to do so. -/
theorem Sound.stepCall_succ (sound : Sound config state)
    (inside : state.procs p = .inside call pc)
    (performed : state.stepCall config p (config.offset p call.locationId) call pc = some state')
    (noStore : ∀ val seqId, pc ≠ .storeStatus val seqId) {d : Nat}
    (succ : (state.desc d).statusInfo.succ = true) : (state'.desc d).statusInfo.succ = true := by
  by_cases same : d = config.offset p call.locationId
  · rw [same] at succ ⊢
    exact (sound.stepCall_updates inside performed noStore).succ succ
  · exact ((State.stepCall_frames performed).desc d same).same.succ succ

/-- What `Tags.words` says of a word that carries the tag of `d`. -/
def Tagged (config : Config) (state : State) (address d : Nat) : Prop :=
  (seqIdOf (state.mem address)).val ≤ (state.desc d).statusInfo.seqId.val ∧
    (seqIdOf (state.mem address) = (state.desc d).statusInfo.seqId →
      actualValueOf (state.mem address) = (state.desc d).newShareVarValue ∨
        ∃ pc, state.phase config d = some pc ∧ pc.mixed = true)

/-- A word that the step leaves alone. -/
theorem Tags.word_kept (tags : Tags config state) (sound : Sound config state)
    (inside : state.procs p = .inside call pc)
    (performed : state.stepCall config p (config.offset p call.locationId) call pc = some state')
    (noStore : ∀ val seqId, pc ≠ .storeStatus val seqId) {address d : Nat}
    (placed : config.location address = some (config.locationOf d))
    (same : state'.mem address = state.mem address)
    (tag : processIdOf (state'.mem address) = config.processOf d + 1) :
    Tagged config state' address d := by
  rw [same] at tag
  obtain ⟨bounded, current⟩ := tags.words address d placed tag
  rw [Tagged, same]
  rw [sound.stepCall_seqId inside performed noStore]
  refine ⟨bounded, fun now => ?_⟩
  by_cases own : d = config.offset p call.locationId
  · subst own
    rcases (sound.stepCall_updates inside performed noStore).newValue with
      ⟨kept, notMixed⟩ | ⟨pc', inside', mixed⟩
    · rw [kept]
      rcases current now with value | ⟨pc', here, mixed⟩
      · exact .inl value
      · rw [sound.phase_own inside] at here
        cases here
        rw [notMixed] at mixed
        cases mixed
    · refine .inr ⟨pc', ?_, mixed⟩
      rw [sound.phase_own_after inside performed, inside']
      rfl
  · have frames := State.stepCall_frames performed
    rw [(frames.desc d own).same.newShareVarValue, State.phase_of_frames inside frames
      (fun _ _ inside' => State.stepCall_call performed inside') own]
    exact current now

theorem Tags.stepCall_words (tags : Tags config state) (sound : Sound config state)
    (inside : state.procs p = .inside call pc)
    (performed : state.stepCall config p (config.offset p call.locationId) call pc = some state')
    (noStore : ∀ val seqId, pc ≠ .storeStatus val seqId) {address d : Nat}
    (placed : config.location address = some (config.locationOf d))
    (tag : processIdOf (state'.mem address) = config.processOf d + 1) :
    Tagged config state' address d := by
  rcases sound.stepCall_cases inside performed with ⟨val, newVal, rfl, -, after⟩ | passes
  · by_cases here : address = (state.desc (config.offset p call.locationId)).sharedAddress
    · obtain ⟨sameId, sameSeq, sameValue⟩ := sound.newVal inside
      rw [here, sound.location_own inside, Option.some.injEq] at placed
      rw [here, after, State.goto_mem, State.storeWord_mem_self] at tag
      rw [Tagged, here, after, State.goto_mem, State.storeWord_mem_self]
      have process : config.processOf d = p := by omega
      have own : d = config.offset p call.locationId := by
        rw [← config.offset_processOf d, process, placed]
      subst own
      rw [State.goto_desc, State.storeWord_desc, sameSeq]
      exact ⟨le_refl _, fun _ => .inl sameValue⟩
    · refine tags.word_kept sound inside performed noStore placed ?_ tag
      rw [after, State.goto_mem, State.storeWord_mem_of_ne _ here]
  · exact tags.word_kept sound inside performed noStore placed
      (passes.leaves address (by rw [placed]; simp)) tag

/-- The value that the call of the step holds afterwards. -/
theorem Tags.stepCall_held (tags : Tags config state) (sound : Sound config state)
    (inside : state.procs p = .inside call pc)
    (performed : state.stepCall config p (config.offset p call.locationId) call pc = some state')
    (noStore : ∀ val seqId, pc ≠ .storeStatus val seqId)
    (shareSet : ∀ d val, pc.carries = some val → call.locationId = config.locationOf d →
      p ≠ config.processOf d → state.CarriesTag config d val →
      (state.desc d).isShareVarSet = true → (state.desc d).statusInfo.succ = true)
    {pc' : Pc} {val d : Nat} (inside' : state'.procs p = .inside call pc')
    (held : pc'.held = some val) (placed : call.locationId = config.locationOf d)
    (other : p ≠ config.processOf d) (tag : processIdOf val = config.processOf d + 1) :
    (seqIdOf val).val ≤ (state'.desc d).statusInfo.seqId.val ∧
      (pc'.past = true → seqIdOf val = (state'.desc d).statusInfo.seqId →
        (state'.desc d).statusInfo.succ = true) := by
  have ready := sound.ready p call pc inside
  have holds := sound.stepCall_held inside performed inside' held
  have seqIds := sound.stepCall_seqId inside performed noStore
  have succs : (state.desc d).statusInfo.succ = true → (state'.desc d).statusInfo.succ = true :=
    sound.stepCall_succ inside performed noStore
  have different : d ≠ config.offset p call.locationId := by
    rintro rfl
    exact other (config.processOf_offset _ ready.process).symm
  rw [seqIds]
  rcases holds.source with before | ⟨loaded, early⟩
  · obtain ⟨bounded, known⟩ := tags.held p call pc val d inside before placed other tag
    refine ⟨bounded, fun past now => ?_⟩
    rcases holds.past past with already | excused
    · exact succs (known already now)
    · have helped : config.offset (processIdOf val - 1) call.locationId = d := by
        rw [tag, Nat.add_sub_cancel, placed, config.offset_processOf]
      have frames := State.stepCall_frames performed
      rw [Excused, helped, seqIds, (frames.desc d different).same.isShareVarSet] at excused
      rcases excused with none_ | mine | set | differs | succ
      · omega
      · omega
      · cases wasPast : pc.past with
        | true => exact succs (known wasPast now)
        | false =>
          exact succs (shareSet d val (Pc.carries_of_held before wasPast) placed other
            ⟨tag, now⟩ set)
      · exact absurd now differs
      · exact succ
  · rw [loaded] at tag ⊢
    have placed' : config.location (state.desc (config.offset p call.locationId)).sharedAddress =
        some (config.locationOf d) := by rw [sound.location_own inside, placed]
    refine ⟨(tags.words _ d placed' tag).1, fun past => ?_⟩
    rw [early] at past
    cases past

/-- The call that takes the step, after its exchange. -/
theorem Tags.stepCall_unfinished_own (tags : Tags config state) (sound : Sound config state)
    (inside : state.procs p = .inside call pc)
    (performed : state.stepCall config p (config.offset p call.locationId) call pc = some state')
    (noStore : ∀ val seqId, pc ≠ .storeStatus val seqId) {pc' : Pc}
    (here : state'.phase config (config.offset p call.locationId) = some pc')
    (unfinished : pc'.unfinished = true) :
    (state'.desc (config.offset p call.locationId)).statusInfo.succ = true ∨
      state'.CarriesTag config (config.offset p call.locationId)
        (state'.mem (state'.desc (config.offset p call.locationId)).sharedAddress) := by
  have ready := sound.ready p call pc inside
  have updates := sound.stepCall_updates inside performed noStore
  rw [sound.phase_own_after inside performed] at here
  cases now : state'.procs p with
  | idle =>
    rw [now] at here
    cases here
  | returned result =>
    rw [now] at here
    cases here
  | inside call' next =>
    rw [now] at here
    cases here
    obtain rfl := State.stepCall_call performed now
    rcases updates.unfinished _ now unfinished with exchanged | ⟨before, sameMem, sameDesc⟩
    · obtain ⟨val, newVal, rfl, same⟩ := exchanged
      rcases sound.stepCall_cases inside performed with ⟨val', newVal', here, -, after⟩ | passes
      · cases here
        obtain ⟨sameId, sameSeq, -⟩ := sound.newVal inside
        refine .inr ⟨?_, ?_⟩
        · rw [after, State.goto_mem, State.goto_desc, State.storeWord_desc,
            State.storeWord_mem_self, sameId, config.processOf_offset _ ready.process]
        · rw [after, State.goto_mem, State.goto_desc, State.storeWord_desc,
            State.storeWord_mem_self, sameSeq]
      · have absurdly := passes.inside _ now
        rw [Pc.swapped_of_unfinished unfinished] at absurdly
        cases absurdly
    · rw [sameMem, sameDesc, State.CarriesTag, sameDesc]
      exact tags.unfinished _ pc (sound.phase_own inside) before

/-- A call of another process, after its exchange. -/
theorem Tags.stepCall_unfinished_other (tags : Tags config state) (sound : Sound config state)
    (inside : state.procs p = .inside call pc)
    (performed : state.stepCall config p (config.offset p call.locationId) call pc = some state')
    (noStore : ∀ val seqId, pc ≠ .storeStatus val seqId) {d : Nat}
    (own : d ≠ config.offset p call.locationId) {pc' : Pc} (here : state'.phase config d = some pc')
    (unfinished : pc'.unfinished = true) :
    (state'.desc d).statusInfo.succ = true ∨
      state'.CarriesTag config d (state'.mem (state'.desc d).sharedAddress) := by
  have frames := State.stepCall_frames performed
  have succs : (state.desc d).statusInfo.succ = true → (state'.desc d).statusInfo.succ = true :=
    sound.stepCall_succ inside performed noStore
  rw [State.phase_of_frames inside frames
    (fun _ _ inside' => State.stepCall_call performed inside') own] at here
  rcases tags.unfinished d pc' here unfinished with succ | carried
  · exact .inl (succs succ)
  · obtain ⟨call', inside', sameD, set⟩ := sound.offset_of_phase here
    have placed := sound.shared d set
    rw [State.CarriesTag, sound.stepCall_seqId inside performed noStore,
      (frames.desc d own).same.sharedAddress]
    rcases sound.stepCall_cases inside performed with ⟨val, newVal, rfl, same, after⟩ | passes
    · by_cases there : (state.desc d).sharedAddress =
          (state.desc (config.offset p call.locationId)).sharedAddress
      · rw [there, same] at carried
        rw [there, sound.location_own inside, Option.some.injEq] at placed
        have other : p ≠ config.processOf d := by
          rintro rfl
          rw [inside] at inside'
          cases inside'
          exact own sameD.symm
        obtain ⟨-, known⟩ := tags.held p call _ val d inside rfl placed other carried.1
        exact .inl (succs (known rfl carried.2))
      · rw [after, State.goto_mem, State.storeWord_mem_of_ne _ there]
        exact .inr carried
    · rw [passes.leaves _ (by rw [placed]; simp)]
      exact .inr carried

theorem Tags.stepCall (tags : Tags config state) (sound : Sound config state)
    (inside : state.procs p = .inside call pc)
    (performed : state.stepCall config p (config.offset p call.locationId) call pc = some state')
    (noStore : ∀ val seqId, pc ≠ .storeStatus val seqId)
    (shareSet : ∀ d val, pc.carries = some val → call.locationId = config.locationOf d →
      p ≠ config.processOf d → state.CarriesTag config d val →
      (state.desc d).isShareVarSet = true → (state.desc d).statusInfo.succ = true) :
    Tags config state' where
  words _ _ placed tag := tags.stepCall_words sound inside performed noStore placed tag
  held u call' pc' val d inside' held placed other tag := by
    by_cases same : u = p
    · subst same
      obtain rfl := State.stepCall_call performed inside'
      exact tags.stepCall_held sound inside performed noStore shareSet inside' held placed other tag
    · rw [(State.stepCall_frames performed).procs u same] at inside'
      obtain ⟨bounded, known⟩ := tags.held u call' pc' val d inside' held placed other tag
      rw [sound.stepCall_seqId inside performed noStore]
      exact ⟨bounded, fun past now => sound.stepCall_succ inside performed noStore (known past now)⟩
  unfinished d pc' here unfinished := by
    by_cases own : d = config.offset p call.locationId
    · subst own
      exact tags.stepCall_unfinished_own sound inside performed noStore here unfinished
    · exact tags.stepCall_unfinished_other sound inside performed noStore own here unfinished

end TagSteps

theorem Fin.val_succ_of_lt {seqId : Fin 16} (bound : seqId.val < 15) :
    (seqId + 1).val = seqId.val + 1 := by
  rw [Fin.val_add, Nat.mod_eq_of_lt]
  · rfl
  · show seqId.val + 1 < 16
    omega

section BeginSteps

variable {state state' : State} {p val : Nat} {call : Call} {seqId : Fin 16}

/-- Without wrapping, the next sequence number is a new one. -/
theorem Tags.unused (tags : Tags config state) (sound : Sound config state)
    (inside : state.procs p = .inside call (.storeStatus val seqId)) (bound : seqId.val < 15) :
    state.Unused config p call.locationId (seqId + 1) := by
  have ready := sound.ready p call _ inside
  obtain ⟨-, -, current⟩ := sound.fits p call _ inside
  have process := config.processOf_offset call.locationId ready.process
  have location := config.locationOf_offset call.locationId ready.process
  have next := Fin.val_succ_of_lt bound
  refine ⟨fun address placed tag => ?_, fun u call' pc value other inside' placed carries tag => ?_⟩
  · have known := (tags.words address (config.offset p call.locationId) (by rw [location, placed])
      (by rw [process]; exact tag.1)).1
    rw [tag.2, current] at known
    omega
  · have held : pc.held = some value := by
      cases pc <;> first | exact carries | cases carries
    have known := (tags.held u call' pc value (config.offset p call.locationId) inside' held
      (by rw [location, placed]) (by rw [process]; exact other) (by rw [process]; exact tag.1)).1
    rw [tag.2, current] at known
    omega

theorem Tags.storeStatus (tags : Tags config state) (sound : Sound config state)
    (inside : state.procs p = .inside call (.storeStatus val seqId)) (bound : seqId.val < 15)
    (performed : state.stepCall config p (config.offset p call.locationId) call
      (.storeStatus val seqId) = some state') : Tags config state' := by
  have frames := State.stepCall_frames performed
  have ready := sound.ready p call _ inside
  have sameCall : ∀ call' pc', state'.procs p = .inside call' pc' → call' = call :=
    fun call' pc' inside' => State.stepCall_call performed inside'
  obtain ⟨-, -, current⟩ := sound.fits p call _ inside
  have process := config.processOf_offset call.locationId ready.process
  have next := Fin.val_succ_of_lt bound
  have after := (Option.some.inj performed).symm
  have mem : state'.mem = state.mem := by
    rw [after]
    rfl
  have own : (state'.desc (config.offset p call.locationId)).statusInfo = ⟨seqId + 1, false⟩ := by
    rw [after, State.goto_desc, State.setDesc_desc_self]
  have others : ∀ d, d ≠ config.offset p call.locationId → state'.desc d = state.desc d := by
    intro d different
    rw [after, State.goto_desc, State.setDesc_desc_of_ne _ different]
  have moved : state'.procs p = .inside call (.clearPrivateAddrSet val) := by
    rw [after, State.goto_procs_self]
  refine ⟨fun address d placed tag => ?_, fun u call' pc value d inside' held placed other tag => ?_,
    fun d pc here unfinished => ?_⟩
  · rw [mem] at tag ⊢
    obtain ⟨known, value⟩ := tags.words address d placed tag
    by_cases same : d = config.offset p call.locationId
    · subst same
      rw [current] at known
      rw [own]
      refine ⟨by rw [next]; omega, fun absurdly => ?_⟩
      rw [absurdly, next] at known
      omega
    · rw [others d same, State.phase_of_frames inside frames sameCall same]
      exact ⟨known, value⟩
  · by_cases mover : u = p
    · subst mover
      have different : d ≠ config.offset u call.locationId := by
        rintro rfl
        exact other process.symm
      rw [moved] at inside'
      cases inside'
      rw [others d different]
      exact tags.held u call (.storeStatus val seqId) value d inside held placed other tag
    · rw [frames.procs u mover] at inside'
      obtain ⟨known, succ⟩ := tags.held u call' pc value d inside' held placed other tag
      by_cases same : d = config.offset p call.locationId
      · subst same
        rw [current] at known
        rw [own]
        refine ⟨by rw [next]; omega, fun _ absurdly => ?_⟩
        rw [absurdly, next] at known
        omega
      · rw [others d same]
        exact ⟨known, succ⟩
  · by_cases same : d = config.offset p call.locationId
    · subst same
      rw [State.phase_offset ready.process sameCall, moved] at here
      cases here
      cases unfinished
    · rw [State.phase_of_frames inside frames sameCall same] at here
      rw [State.CarriesTag, mem, others d same]
      exact tags.unfinished d pc here unfinished

end BeginSteps

/-- What happens outside of the calls. -/
structure Outside (config : Config) (state state' : State) : Prop where
  mem : state'.mem = state.mem
  status : ∀ d, (state'.desc d).statusInfo = (state.desc d).statusInfo
  newValue : ∀ d, (state'.desc d).newShareVarValue = (state.desc d).newShareVarValue
  privateSet : ∀ d, (state'.desc d).isPrivateAddrSet = (state.desc d).isPrivateAddrSet
  shareSet : ∀ d, (state'.desc d).isShareVarSet = (state.desc d).isShareVarSet
  calls : ∀ d pc, state.phase config d = some pc → Kept (state.desc d) (state'.desc d)
  procs : ∀ u call pc, state'.procs u = .inside call pc →
    state.procs u = .inside call pc ∨ pc = .loadVal
  phases : ∀ d, state'.phase config d = state.phase config d ∨
    state.phase config d = none ∧ state'.phase config d = some .loadVal

theorem Tags.outside {state state' : State} (tags : Tags config state)
    (outside : Outside config state state') : Tags config state' := by
  refine ⟨fun address d placed tag => ?_, fun u call pc val d inside held placed other tag => ?_,
    fun d pc here unfinished => ?_⟩
  · rw [outside.mem] at tag ⊢
    obtain ⟨known, value⟩ := tags.words address d placed tag
    rw [outside.status, outside.newValue]
    refine ⟨known, fun now => ?_⟩
    rcases value now with same | ⟨pc, here, mixed⟩
    · exact .inl same
    · rcases outside.phases d with same | ⟨none_, -⟩
      · exact .inr ⟨pc, same.trans here, mixed⟩
      · rw [none_] at here
        cases here
  · rw [outside.status]
    rcases outside.procs u call pc inside with before | rfl
    · exact tags.held u call pc val d before held placed other tag
    · cases held
  · rcases outside.phases d with same | ⟨-, started⟩
    · rw [same] at here
      have kept := outside.calls d pc here
      rw [State.CarriesTag, outside.mem, outside.status, kept.sharedAddress]
      exact tags.unfinished d pc here unfinished
    · rw [started] at here
      cases here
      cases unfinished

theorem State.set_outside {state state' : State} {p l : Nat} {allowed : Bool}
    {change : OptmizedFASASDescriptor → OptmizedFASASDescriptor}
    (performed : state.set config p l allowed change = some state')
    (status : ∀ descriptor, (change descriptor).statusInfo = descriptor.statusInfo)
    (newValue : ∀ descriptor, (change descriptor).newShareVarValue = descriptor.newShareVarValue)
    (privateSet : ∀ descriptor, (change descriptor).isPrivateAddrSet = descriptor.isPrivateAddrSet)
    (shareSet : ∀ descriptor, (change descriptor).isShareVarSet = descriptor.isShareVarSet) :
    Outside config state state' := by
  simp only [State.set, Option.ite_none_right_eq_some, Option.some.injEq] at performed
  obtain ⟨⟨free, process, -⟩, rfl⟩ := performed
  have field : ∀ {Value : Type} (get : OptmizedFASASDescriptor → Value),
      (∀ descriptor, get (change descriptor) = get descriptor) → ∀ d,
        get ((state.setDesc (config.offset p l) (change (state.desc (config.offset p l)))).desc d) =
          get (state.desc d) := by
    intro Value get same d
    by_cases here : d = config.offset p l
    · rw [here, State.setDesc_desc_self, same]
    · rw [State.setDesc_desc_of_ne _ here]
  refine ⟨rfl, field (·.statusInfo) status, field (·.newShareVarValue) newValue,
    field (·.isPrivateAddrSet) privateSet, field (·.isShareVarSet) shareSet, fun d pc here => ?_,
    fun _ _ _ inside => .inl inside, fun d => .inl rfl⟩
  have different : d ≠ config.offset p l := by
    rintro rfl
    obtain ⟨call, inside, -⟩ := State.phase_eq_some here
    rw [config.processOf_offset _ process] at inside
    rw [inside] at free
    exact free
  rw [State.setDesc_desc_of_ne _ different]
  exact .refl _

theorem State.process_outside {state state' : State} {p : Nat} {call : Call}
    (performed : state.next config (.process p call) = some state') :
    Outside config state state' := by
  simp only [State.next, Option.ite_none_right_eq_some, Option.some.injEq] at performed
  obtain ⟨⟨free, ready⟩, rfl⟩ := performed
  refine ⟨rfl, fun _ => rfl, fun _ => rfl, fun _ => rfl, fun _ => rfl, fun _ _ _ => .refl _,
    fun u call' pc inside => ?_, fun d => ?_⟩
  · by_cases same : u = p
    · subst same
      rw [State.goto_procs_self] at inside
      cases inside
      exact .inr rfl
    · rw [State.goto_procs_of_ne _ same] at inside
      exact .inl inside
  · by_cases own : config.processOf d = p
    · have none_ : state.phase config d = none := by
        cases here : state.phase config d with
        | none => rfl
        | some pc =>
          obtain ⟨call', inside, -⟩ := State.phase_eq_some here
          rw [own] at inside
          rw [inside] at free
          exact absurd free id
      by_cases placed : call.locationId = config.locationOf d
      · refine .inr ⟨none_, ?_⟩
        simp only [State.phase, own, State.goto_procs_self, if_pos placed]
      · refine .inl ?_
        rw [none_]
        simp only [State.phase, own, State.goto_procs_self, if_neg placed]
    · refine .inl ?_
      simp only [State.phase, State.goto_procs_of_ne _ own]

/-! ### The private word -/

/-- The call is in an attempt. -/
def Pc.began : Pc → Bool
  | .storeOld _ | .storeNew _ | .loadSeq _ | .storeStatus _ _ | .clearPrivateAddrSet _
  | .clearShareVarSet _ | .loadNewVal _ | .cas _ _ | .loadStatus | .storeSucc _ | .setShareVarSet
  | .storePrivate | .setPrivateAddrSet => true
  | _ => false

/-- The word is exchanged, and the private word is not written. -/
def Pc.unwritten : Pc → Bool
  | .loadStatus | .storeSucc _ | .setShareVarSet | .storePrivate => true
  | _ => false

/-- What a step of a call does to the private word of its descriptor. -/
structure Writes (config : Config) (state state' : State) (p : Nat) (call : Call) (pc : Pc) :
    Prop where
  began : ∀ pc', state'.procs p = .inside call pc' → pc'.began = true →
    pc.began = true ∨ ∃ val, pc' = .storeOld val
  mem : ∀ address, config.location address = none → pc ≠ .storePrivate →
    state'.mem address = state.mem address
  others : ∀ address, config.location address = none →
    address ≠ (state.desc (config.offset p call.locationId)).privateAddress →
    state'.mem address = state.mem address
  written : pc.unwritten = true →
    (∃ pc', state'.procs p = .inside call pc' ∧ pc'.unwritten = true) ∨
      pc = .storePrivate ∧
        state'.mem (state.desc (config.offset p call.locationId)).privateAddress =
          (state.desc (config.offset p call.locationId)).privateValue
  exchanged : Exchanged config state p call pc →
    ∃ pc', state'.procs p = .inside call pc' ∧ pc'.unwritten = true
  kept : Kept (state.desc (config.offset p call.locationId))
    (state'.desc (config.offset p call.locationId))

theorem Writes.of_goto {state : State} {p : Nat} {call : Call} {pc : Pc} {process : Process}
    (began : ∀ pc', process = .inside call pc' → pc'.began = true →
      pc.began = true ∨ ∃ val, pc' = .storeOld val)
    (notCas : ∀ val newVal, pc ≠ .cas val newVal) (written : pc.unwritten = false) :
    Writes config state (state.goto p process) p call pc where
  began pc' here := by
    rw [State.goto_procs_self] at here
    exact began pc' here
  mem _ _ _ := rfl
  others _ _ _ := rfl
  written unwritten := by
    rw [written] at unwritten
    cases unwritten
  exchanged exchanged := by
    obtain ⟨val, newVal, rfl, -⟩ := exchanged
    exact absurd rfl (notCas val newVal)
  kept := .refl _

theorem Writes.of_afterHelp {state : State} {p : Nat} {call : Call} {pc : Pc}
    {val actualValue : Nat} (notCas : ∀ val newVal, pc ≠ .cas val newVal)
    (written : pc.unwritten = false) :
    Writes config state (state.goto p (State.afterHelp call val actualValue)) p call pc := by
  refine .of_goto (fun pc' here _ => ?_) notCas written
  obtain ⟨-, rfl, -⟩ := State.afterHelp_inside here
  exact .inr ⟨val, rfl⟩

theorem Writes.of_setDesc {state : State} {p : Nat} {call : Call} {pc pc' : Pc}
    {descriptor : OptmizedFASASDescriptor} (began : pc.began = true)
    (notCas : ∀ val newVal, pc ≠ .cas val newVal)
    (written : pc.unwritten = true → pc'.unwritten = true)
    (kept : Kept (state.desc (config.offset p call.locationId)) descriptor) :
    Writes config state ((state.setDesc (config.offset p call.locationId) descriptor).goto p
      (.inside call pc')) p call pc where
  began _ _ _ := .inl began
  mem _ _ _ := rfl
  others _ _ _ := rfl
  written unwritten := .inl ⟨pc', State.goto_procs_self .., written unwritten⟩
  exchanged exchanged := by
    obtain ⟨val, newVal, rfl, -⟩ := exchanged
    exact absurd rfl (notCas val newVal)
  kept := by
    rw [State.goto_desc, State.setDesc_desc_self]
    exact kept

/-- A step inside `getValueProtectedOfSharedVar`. -/
theorem Sound.writes_of_help {state state' : State} {p : Nat} {call : Call} {pc : Pc}
    (sound : Sound config state) (inside : state.procs p = .inside call pc)
    (performed : state.stepCall config p (config.offset p call.locationId) call pc = some state')
    (helping : pc.helping = true) : Writes config state state' p call pc := by
  have notCas : ∀ val newVal, pc ≠ .cas val newVal := by
    rintro val newVal rfl
    cases helping
  have written : pc.unwritten = false := by
    cases pc <;> first | rfl | cases helping
  have fits := sound.fits p call pc inside
  rcases State.stepCall_help performed helping with ⟨val, actualValue, rfl⟩ | ⟨pc', goes, rfl⟩ |
    ⟨val, actualValue, rfl, -, rfl⟩
  · exact .of_afterHelp notCas written
  · refine .of_goto (fun next here began => ?_) notCas written
    cases here
    have notBegun : pc'.began = false := by
      cases pc' <;> first | rfl | cases goes
    rw [notBegun] at began
    cases began
  · refine ⟨fun pc' here after => ?_, fun _ _ _ => rfl, fun _ _ _ => rfl,
      (by intros; contradiction), ?_, ?_⟩
    · rw [State.goto_procs_self] at here
      cases here
      cases after
    · rintro ⟨val', newVal', here, -⟩
      cases here
    · rw [State.goto_desc, State.setDesc_desc_of_ne _ (sound.helped_ne inside fits)]
      exact .refl _

theorem Sound.stepCall_writes {state state' : State} {p : Nat} {call : Call} {pc : Pc}
    (sound : Sound config state) (inside : state.procs p = .inside call pc)
    (performed : state.stepCall config p (config.offset p call.locationId) call pc = some state') :
    Writes config state state' p call pc := by
  have ready := sound.ready p call pc inside
  cases pc with
  | loadVal | loadActual | helpCheckSet | helpCheckSeq | helpCheckAgain | helpLoadStatus | helpCas
  | helpCheckLast =>
    exact sound.writes_of_help inside performed rfl
  | loadSeq | loadNewVal =>
    cases performed
    exact .of_goto (fun _ _ _ => .inl rfl) (by simp) rfl
  | storeOld | storeNew | storeStatus | clearPrivateAddrSet | clearShareVarSet =>
    cases performed
    exact .of_setDesc rfl (by simp) (by intros; contradiction) ⟨rfl, rfl, rfl, rfl⟩
  | storeSucc | setShareVarSet =>
    cases performed
    exact .of_setDesc rfl (by simp) (fun _ => rfl) ⟨rfl, rfl, rfl, rfl⟩
  | cas val newVal =>
    rw [State.stepCall] at performed
    split at performed <;> cases performed
    · have shared : ∀ address, config.location address = none →
          address ≠ (state.desc (config.offset p call.locationId)).sharedAddress := by
        rintro address none_ rfl
        rw [sound.shared _ ready.shared] at none_
        cases none_
      refine ⟨fun _ _ _ => .inl rfl, fun address none_ _ => ?_, fun address none_ _ => ?_, (by intros; contradiction),
        fun _ => ⟨_, State.goto_procs_self .., rfl⟩, .refl _⟩
      · rw [State.goto_mem, State.storeWord_mem_of_ne _ (shared address none_)]
      · rw [State.goto_mem, State.storeWord_mem_of_ne _ (shared address none_)]
    · next different =>
      refine ⟨fun pc' here => ?_, fun _ _ _ => rfl, fun _ _ _ => rfl, (by intros; contradiction), ?_, .refl _⟩
      · rw [State.goto_procs_self] at here
        cases here
      · rintro ⟨val', newVal', here, there⟩
        cases here
        exact absurd there different
  | loadStatus =>
    cases performed
    refine ⟨fun _ _ _ => .inl rfl, fun _ _ _ => rfl, fun _ _ _ => rfl,
      fun _ => .inl ⟨_, State.goto_procs_self .., rfl⟩, ?_, .refl _⟩
    rintro ⟨val', newVal', here, -⟩
    cases here
  | storePrivate =>
    cases performed
    refine ⟨fun _ _ _ => .inl rfl, fun _ _ absurdly => absurd rfl absurdly,
      fun address _ different => ?_, fun _ => .inr ⟨rfl, ?_⟩, ?_, .refl _⟩
    · rw [State.goto_mem, State.storeWord_mem_of_ne _ different]
    · rw [State.goto_mem, State.storeWord_mem_self]
    · rintro ⟨val', newVal', here, -⟩
      cases here
  | setPrivateAddrSet =>
    cases performed
    refine ⟨fun pc' here => ?_, fun _ _ _ => rfl, fun _ _ _ => rfl, (by intros; contradiction), ?_, ?_⟩
    · rw [State.goto_procs_self] at here
      cases here
    · rintro ⟨val', newVal', here, -⟩
      cases here
    · rw [State.goto_desc, State.setDesc_desc_self]
      exact ⟨rfl, rfl, rfl, rfl⟩

end Pmwcas.OptmizedFasas
