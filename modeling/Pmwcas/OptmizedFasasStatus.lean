/-
This file proves when the success bit of `statusInfo_` tells the truth: the attempt whose store
gave `statusInfo_` its sequence number has exchanged the shared word.

A helper trusts the tag it has read. The tag has four bits of sequence number, so it fits every
sixteenth attempt of the process, and a helper that was delayed for sixteen attempts sets the
success bit of an attempt that has not exchanged anything. The condition under which this cannot
happen is about the beginning of an attempt: no word of the location and no call about to help
still carries the tag that the new attempt will use.
-/

import Pmwcas.OptmizedFasasAtomicity

namespace Pmwcas.OptmizedFasas

open Transition

variable {config : Config}

/-! ### Attempts -/

/-- In this step the owner of descriptor `d` stores a new sequence number in `statusInfo_`. -/
def StoresStatus (run : Run (system config)) (d index : Nat) : Prop :=
  index < run.length ∧ ∃ p call val seqId, run.action index = .step p ∧
    (run.state index).procs p = .inside call (.storeStatus val seqId) ∧
    config.offset p call.locationId = d

/-- In this step the exchange of a call with descriptor `d` succeeds. -/
def Exchanges (run : Run (system config)) (d index : Nat) : Prop :=
  index < run.length ∧ ∃ p call val newVal, run.action index = .step p ∧
    (run.state index).procs p = .inside call (.cas val newVal) ∧
    config.offset p call.locationId = d ∧
    (run.state index).mem ((run.state index).desc d).sharedAddress = val

/-- The attempt whose store gave `statusInfo_` its sequence number has succeeded in its exchange. -/
def TookEffect (run : Run (system config)) (d index : Nat) : Prop :=
  Since (StoresStatus run d) (Exchanges run d) index

/-- The word carries the current tag of descriptor `d`. -/
def State.CarriesTag (config : Config) (state : State) (d val : Nat) : Prop :=
  processIdOf val = config.processOf d + 1 ∧ seqIdOf val = (state.desc d).statusInfo.seqId

/-- What makes `recoverOneDescriptor` write the private word of descriptor `d`. -/
def State.RollsForward (config : Config) (state : State) (d : Nat) : Prop :=
  (state.desc d).sharedAddress ≠ 0 ∧ (state.desc d).isPrivateAddrSet = false ∧
    ((state.desc d).statusInfo.succ = true ∨
      state.CarriesTag config d (state.mem (state.desc d).sharedAddress))

/-- The success bit tells the truth, and recovery writes only results of attempts that took
effect. -/
structure StatusTrue (run : Run (system config)) : Prop where
  succ : ∀ index ≤ run.length, ∀ d, ((run.state index).desc d).statusInfo.succ = true →
    TookEffect run d index
  recovered : ∀ index ≤ run.length, ∀ d, (run.state index).RollsForward config d →
    TookEffect run d index

/-! ### The condition -/

/-- The word a call may still help with. -/
def Pc.carries : Pc → Option Nat
  | .loadActual val | .helpCheckSet val _ | .helpCheckSeq val _ | .helpCheckAgain val _
  | .helpLoadStatus val _ | .helpCas val _ => some val
  | _ => none

/-- Nobody has the tag of process `p` with this sequence number: no word of the location, and no
call of another process that may still help. -/
structure State.Unused (config : Config) (state : State) (p locationId : Nat) (seqId : Fin 16) :
    Prop where
  words : ∀ address, config.location address = some locationId →
    ¬ (processIdOf (state.mem address) = p + 1 ∧ seqIdOf (state.mem address) = seqId)
  helpers : ∀ u call pc val, u ≠ p → state.procs u = .inside call pc →
    call.locationId = locationId → pc.carries = some val →
    ¬ (processIdOf val = p + 1 ∧ seqIdOf val = seqId)

/-- The condition: an attempt does not take a sequence number that is still in use. -/
def FreshSeqId (config : Config) (state : State) (action : Action) : Prop :=
  ∀ p call val seqId, action = .step p → state.procs p = .inside call (.storeStatus val seqId) →
    state.Unused config p call.locationId (seqId + 1)

/-! ### What a step of a call changes -/

/-- The call has stored its sequence number. -/
def Pc.stored : Pc → Bool
  | .clearPrivateAddrSet _ | .clearShareVarSet _ | .loadNewVal _ | .cas _ _ => true
  | pc => pc.swapped

/-- What a step of a call does to sequence numbers, success bits and tags. -/
structure Changes (config : Config) (state state' : State) (p : Nat) (call : Call) (pc : Pc) :
    Prop where
  /-- Another descriptor gets its success bit from a helper with its tag. -/
  helps : ∀ e, e ≠ config.offset p call.locationId → (state'.desc e).statusInfo.succ = true →
    (state.desc e).statusInfo.succ = true ∨ ∃ val actualValue, pc = .helpCas val actualValue ∧
      e = config.offset (processIdOf val - 1) call.locationId ∧
      (state.desc e).statusInfo.seqId = seqIdOf val
  seqId : (∀ val seqId, pc ≠ .storeStatus val seqId) →
    (state'.desc (config.offset p call.locationId)).statusInfo.seqId =
      (state.desc (config.offset p call.locationId)).statusInfo.seqId
  succ : (∀ tmpStatus, pc ≠ .storeSucc tmpStatus) →
    (state'.desc (config.offset p call.locationId)).statusInfo.succ = true →
      (state.desc (config.offset p call.locationId)).statusInfo.succ = true
  carries : ∀ pc' val, state'.procs p = .inside call pc' → pc'.carries = some val →
    pc.carries = some val ∨
      val = state.mem (state.desc (config.offset p call.locationId)).sharedAddress
  stored : ∀ pc', state'.procs p = .inside call pc' → pc'.stored = true →
    pc.stored = true ∨ ∃ val seqId, pc = .storeStatus val seqId
  status : ∀ val seqId, pc = .storeStatus val seqId →
    (state'.desc (config.offset p call.locationId)).statusInfo = ⟨seqId + 1, false⟩

theorem Changes.of_goto {state : State} {p : Nat} {call : Call} {pc : Pc} (process : Process)
    (other : ∀ val seqId, pc ≠ .storeStatus val seqId)
    (carries : ∀ pc' val, process = .inside call pc' → pc'.carries = some val →
      pc.carries = some val ∨
        val = state.mem (state.desc (config.offset p call.locationId)).sharedAddress)
    (stored : ∀ pc', process = .inside call pc' → pc'.stored = true → pc.stored = true) :
    Changes config state (state.goto p process) p call pc where
  helps _ _ succ := .inl succ
  seqId _ := rfl
  succ _ succ := succ
  carries pc' val here := by
    rw [State.goto_procs_self] at here
    exact carries pc' val here
  stored pc' here after := by
    rw [State.goto_procs_self] at here
    exact .inl (stored pc' here after)
  status val seqId same := absurd same (other val seqId)

theorem Changes.of_write {state : State} {p : Nat} {call : Call} {pc : Pc} {process : Process}
    {descriptor : OptmizedFASASDescriptor}
    (carries : ∀ pc', process = .inside call pc' → pc'.carries = none)
    (stored : ∀ pc', process = .inside call pc' → pc'.stored = true →
      pc.stored = true ∨ ∃ val seqId, pc = .storeStatus val seqId)
    (seqId : (∀ val seqId, pc ≠ .storeStatus val seqId) → descriptor.statusInfo.seqId =
      (state.desc (config.offset p call.locationId)).statusInfo.seqId)
    (succ : (∀ tmpStatus, pc ≠ .storeSucc tmpStatus) → descriptor.statusInfo.succ = true →
      (state.desc (config.offset p call.locationId)).statusInfo.succ = true)
    (status : ∀ val seqId, pc = .storeStatus val seqId →
      descriptor.statusInfo = ⟨seqId + 1, false⟩) :
    Changes config state
      ((state.setDesc (config.offset p call.locationId) descriptor).goto p process) p call pc where
  helps e different succ := by
    rw [State.goto_desc, State.setDesc_desc_of_ne _ different] at succ
    exact .inl succ
  seqId other := by
    rw [State.goto_desc, State.setDesc_desc_self]
    exact seqId other
  succ other now := by
    rw [State.goto_desc, State.setDesc_desc_self] at now
    exact succ other now
  carries pc' val here carried := by
    rw [State.goto_procs_self] at here
    rw [carries pc' here] at carried
    cases carried
  stored pc' here after := by
    rw [State.goto_procs_self] at here
    exact stored pc' here after
  status val seqId same := by
    rw [State.goto_desc, State.setDesc_desc_self]
    exact status val seqId same

theorem afterHelp_carries {call : Call} {val actualValue : Nat} {pc : Pc}
    (inside : State.afterHelp call val actualValue = .inside call pc) :
    pc.carries = none ∧ pc.stored = false := by
  obtain ⟨-, rfl, -⟩ := State.afterHelp_inside inside
  exact ⟨rfl, rfl⟩

theorem Changes.of_afterHelp {state : State} {p : Nat} {call : Call} {pc : Pc}
    {val actualValue : Nat} (other : ∀ val seqId, pc ≠ .storeStatus val seqId) :
    Changes config state (state.goto p (State.afterHelp call val actualValue)) p call pc := by
  refine .of_goto _ other (fun pc' val' here carried => ?_) fun pc' here after => ?_
  · rw [(afterHelp_carries here).1] at carried
    cases carried
  · rw [(afterHelp_carries here).2] at after
    cases after

/-- The call goes on, with no new value. -/
theorem Changes.of_moved {state : State} {p : Nat} {call : Call} {pc pc' : Pc}
    (other : ∀ val seqId, pc ≠ .storeStatus val seqId)
    (carries : ∀ val, pc'.carries = some val → pc.carries = some val)
    (stored : pc'.stored = true → pc.stored = true) :
    Changes config state (state.goto p (.inside call pc')) p call pc := by
  refine .of_goto _ other (fun next val here carried => ?_) fun next here after => ?_ <;> cases here
  · exact .inl (carries val carried)
  · exact stored after

/-- A helper sets the success bit of the descriptor it helps. -/
theorem Sound.changes_of_helpCas {state : State} {p val actualValue : Nat} {call : Call}
    (sound : Sound config state) (inside : state.procs p = .inside call (.helpCas val actualValue))
    (failed : (state.desc (config.offset (processIdOf val - 1) call.locationId)).statusInfo =
      ⟨seqIdOf val, false⟩) :
    Changes config state
      ((state.setDesc (config.offset (processIdOf val - 1) call.locationId)
        { state.desc (config.offset (processIdOf val - 1) call.locationId) with
          statusInfo := ⟨seqIdOf val, true⟩ }).goto p
            (.inside call (.helpCheckLast val actualValue))) p call (.helpCas val actualValue) := by
  have different := sound.helped_ne inside (sound.fits p call _ inside)
  refine ⟨fun e _ succ => ?_, fun _ => ?_, fun _ succ => ?_, fun pc' val' here carried => ?_,
    fun pc' here after => ?_, by simp⟩
  · by_cases same : e = config.offset (processIdOf val - 1) call.locationId
    · exact .inr ⟨val, actualValue, rfl, same, by rw [same, failed]⟩
    · rw [State.goto_desc, State.setDesc_desc_of_ne _ same] at succ
      exact .inl succ
  · rw [State.goto_desc, State.setDesc_desc_of_ne _ different]
  · rw [State.goto_desc, State.setDesc_desc_of_ne _ different] at succ
    exact succ
  · rw [State.goto_procs_self] at here
    cases here
    cases carried
  · rw [State.goto_procs_self] at here
    cases here
    cases after

theorem Sound.stepCall_changes {state state' : State} {p : Nat} {call : Call} {pc : Pc}
    (sound : Sound config state) (inside : state.procs p = .inside call pc)
    (performed : state.stepCall config p (config.offset p call.locationId) call pc = some state') :
    Changes config state state' p call pc := by
  have fits := sound.fits p call pc inside
  cases pc with
  | loadVal =>
    cases performed
    refine .of_goto _ (by simp) (fun pc' val here carried => ?_) fun pc' here after => ?_ <;>
      cases here
    · exact .inr (Option.some.inj carried).symm
    · cases after
  | loadActual val =>
    rw [State.stepCall] at performed
    split at performed
    · simp only [Option.bind_eq_some_iff, Option.some.injEq] at performed
      obtain ⟨-, -, rfl⟩ := performed
      exact .of_moved (by simp) (fun _ carried => carried) (by intros; contradiction)
    · cases performed
      exact .of_afterHelp (by simp)
  | helpCheckSet val actualValue | helpCheckSeq val actualValue =>
    rw [State.stepCall] at performed
    split at performed <;> cases performed
    · exact .of_afterHelp (by simp)
    · exact .of_moved (by simp) (fun _ carried => carried) (by intros; contradiction)
  | helpCheckAgain val actualValue =>
    rw [State.stepCall] at performed
    split at performed
    · cases performed
      exact .of_afterHelp (by simp)
    · split at performed <;> cases performed
      · exact .of_afterHelp (by simp)
      · exact .of_moved (by simp) (fun _ carried => carried) (by intros; contradiction)
  | helpLoadStatus val actualValue =>
    rw [State.stepCall] at performed
    split at performed <;> cases performed
    · exact .of_moved (by simp) (fun _ carried => carried) (by intros; contradiction)
    · exact .of_moved (by simp) (by intros; contradiction) (by intros; contradiction)
  | helpCas val actualValue =>
    rw [State.stepCall] at performed
    split at performed <;> cases performed
    · next failed => exact sound.changes_of_helpCas inside failed
    · exact .of_moved (by simp) (by intros; contradiction) (by intros; contradiction)
  | helpCheckLast val actualValue =>
    cases performed
    exact .of_afterHelp (by simp)
  | loadSeq val =>
    cases performed
    exact .of_moved (by simp) (by intros; contradiction) (by intros; contradiction)
  | loadNewVal val | loadStatus =>
    cases performed
    exact .of_moved (by simp) (by intros; contradiction) fun _ => rfl
  | cas val newVal =>
    rw [State.stepCall] at performed
    split at performed <;> cases performed
    · refine ⟨fun _ _ succ => .inl succ, fun _ => rfl, fun _ succ => succ, fun pc' val' here carried => ?_,
        fun _ _ _ => .inl rfl, by simp⟩
      rw [State.goto_procs_self] at here
      cases here
      cases carried
    · exact .of_goto _ (by simp) (by intros; contradiction) (by intros; contradiction)
  | storePrivate =>
    cases performed
    refine ⟨fun _ _ succ => .inl succ, fun _ => rfl, fun _ succ => succ, fun pc' val' here carried => ?_,
      fun _ _ _ => .inl rfl, by simp⟩
    rw [State.goto_procs_self] at here
    cases here
    cases carried
  | storeStatus val seqId =>
    cases performed
    refine .of_write (fun pc' here => ?_) (fun _ _ _ => .inr ⟨val, seqId, rfl⟩)
      (fun other => absurd rfl (other val seqId)) (fun _ => (by intros; contradiction)) fun val' seqId' same => ?_
    · cases here
      rfl
    · cases same
      rfl
  | storeSucc tmpStatus =>
    cases performed
    refine .of_write (fun pc' here => ?_) (fun _ _ _ => .inl rfl) (fun _ => fits.2.2.symm)
      (fun other => absurd rfl (other tmpStatus)) (by simp)
    cases here
    rfl
  | storeOld val | storeNew val =>
    cases performed
    refine .of_write (fun pc' here => ?_) (fun pc' here after => ?_) (fun _ => rfl)
      (fun _ succ => succ) (by simp) <;> cases here
    · rfl
    · cases after
  | clearPrivateAddrSet val | clearShareVarSet val | setShareVarSet =>
    cases performed
    refine .of_write (fun pc' here => ?_) (fun pc' here after => .inl rfl) (fun _ => rfl)
      (fun _ succ => succ) (by simp)
    cases here
    rfl
  | setPrivateAddrSet =>
    cases performed
    exact .of_write (by intros; contradiction) (by intros; contradiction) (fun _ => rfl) (fun _ succ => succ) (by simp)

/-! ### The invariant -/

/-- Everything that carries the current tag of a descriptor comes from an attempt that took
effect. -/
structure Truthful (run : Run (system config)) (index : Nat) : Prop where
  succ : ∀ d, ((run.state index).desc d).statusInfo.succ = true → TookEffect run d index
  words : ∀ address d, config.location address = some (config.locationOf d) →
    (run.state index).CarriesTag config d ((run.state index).mem address) → TookEffect run d index
  helpers : ∀ u call pc val d, (run.state index).procs u = .inside call pc →
    pc.carries = some val → call.locationId = config.locationOf d → u ≠ config.processOf d →
    (run.state index).CarriesTag config d val → TookEffect run d index
  swapped : ∀ p call pc, (run.state index).procs p = .inside call pc → pc.swapped = true →
    TookEffect run (config.offset p call.locationId) index
  stored : ∀ p call pc, (run.state index).procs p = .inside call pc → pc.stored = true →
    ∃ first, first < index ∧ StoresStatus run (config.offset p call.locationId) first

theorem Config.offset_processOf (config : Config) (d : Nat) :
    config.offset (config.processOf d) (config.locationOf d) = d :=
  Nat.div_add_mod d config.maximumThreadNum

section Steps

variable {run : Run (system config)} {index : Nat}

theorem not_storesStatus {d p : Nat} {call : Call} {pc : Pc} (acts : run.action index = .step p)
    (inside : (run.state index).procs p = .inside call pc)
    (other : (∀ val seqId, pc ≠ .storeStatus val seqId) ∨ d ≠ config.offset p call.locationId) :
    ¬ StoresStatus run d index := by
  rintro ⟨-, u, call', val, seqId, acts', inside', here⟩
  rw [acts] at acts'
  cases acts'
  rw [inside] at inside'
  cases inside'
  rcases other with notStore | different
  · exact notStore val seqId rfl
  · exact different here.symm

theorem not_storesStatus_of_ne {d : Nat} (other : ∀ p, run.action index ≠ .step p) :
    ¬ StoresStatus run d index := by
  rintro ⟨-, p, -, -, -, acts, -⟩
  exact other p acts

/-- A step that is no step of a call, and changes neither memory nor statuses. -/
theorem Truthful.of_quiet (truthful : Truthful run index)
    (other : ∀ p, run.action index ≠ .step p)
    (mem : (run.state (index + 1)).mem = (run.state index).mem)
    (status : ∀ d, ((run.state (index + 1)).desc d).statusInfo =
      ((run.state index).desc d).statusInfo)
    (procs : ∀ u call pc, (run.state (index + 1)).procs u = .inside call pc →
      (run.state index).procs u = .inside call pc ∨ pc = .loadVal) :
    Truthful run (index + 1) := by
  have kept : ∀ d, TookEffect run d index → TookEffect run d (index + 1) :=
    fun d effect => Since.succ effect (not_storesStatus_of_ne other)
  have tags : ∀ d val, (run.state (index + 1)).CarriesTag config d val →
      (run.state index).CarriesTag config d val := by
    intro d val carried
    rw [State.CarriesTag, status] at carried
    exact carried
  refine ⟨fun d succ => ?_, fun address d placed carried => ?_,
    fun u call pc val d inside carries placed different carried => ?_,
    fun p call pc inside swapped => ?_, fun p call pc inside stored => ?_⟩
  · rw [status] at succ
    exact kept d (truthful.succ d succ)
  · rw [mem] at carried
    exact kept d (truthful.words address d placed (tags d _ carried))
  · rcases procs u call pc inside with before | rfl
    · exact kept d (truthful.helpers u call pc val d before carries placed different
        (tags d val carried))
    · cases carries
  · rcases procs p call pc inside with before | rfl
    · exact kept _ (truthful.swapped p call pc before swapped)
    · cases swapped
  · rcases procs p call pc inside with before | rfl
    · obtain ⟨first, earlier, stores⟩ := truthful.stored p call pc before stored
      exact ⟨first, Nat.lt_succ_of_lt earlier, stores⟩
    · cases stored

/-- Seen from a step of a call on descriptor `d`, another call is on another descriptor. -/
theorem Sound.offset_ne {state : State} {p u : Nat} {call call' : Call} {pc pc' : Pc}
    (sound : Sound config state) (inside : state.procs p = .inside call pc)
    (inside' : state.procs u = .inside call' pc') (other : u ≠ p) :
    config.offset u call'.locationId ≠ config.offset p call.locationId :=
  config.offset_ne _ _ (sound.ready p call pc inside).process
    (sound.ready u call' pc' inside').process other

/-- The tag of the word that a call swaps in. -/
theorem Sound.carriesTag_newVal {state : State} {p d val newVal : Nat} {call : Call}
    (sound : Sound config state) (inside : state.procs p = .inside call (.cas val newVal))
    (placed : config.locationOf d = call.locationId) (carried : state.CarriesTag config d newVal) :
    d = config.offset p call.locationId := by
  have ready := sound.ready p call _ inside
  obtain ⟨-, -, made⟩ := sound.fits p call _ inside
  have own := sound.processId (config.offset p call.locationId)
  rw [config.processOf_offset _ ready.process] at own
  have id : ((state.desc (config.offset p call.locationId)).processId) < 2 ^ 12 := by
    rw [own]
    have bound := config.small
    have inRange := ready.process
    omega
  have tag := carried.1
  rw [made, processIdOf_taggedValue id ready.newval, own] at tag
  have process : config.processOf d = p := by omega
  rw [← config.offset_processOf d, process, placed]

theorem Truthful.of_step {p : Nat} {call : Call} {pc : Pc} (truthful : Truthful run index)
    (before : index < run.length) (acts : run.action index = .step p)
    (inside : (run.state index).procs p = .inside call pc)
    (other : ∀ val seqId, pc ≠ .storeStatus val seqId) : Truthful run (index + 1) := by
  have sound := Sound.of_run run index (Nat.le_of_lt before)
  have performed : (run.state index).next config (run.action index) =
      some (run.state (index + 1)) := run.steps index before
  rw [acts, State.next, inside] at performed
  have frames := State.stepCall_frames performed
  have changes := sound.stepCall_changes inside performed
  have cases := sound.stepCall_cases inside performed
  have kept : ∀ d, TookEffect run d index → TookEffect run d (index + 1) :=
    fun d effect => Since.succ effect (not_storesStatus acts inside (.inl other))
  have seqIds : ∀ d, ((run.state (index + 1)).desc d).statusInfo.seqId =
      ((run.state index).desc d).statusInfo.seqId := by
    intro d
    by_cases same : d = config.offset p call.locationId
    · rw [same]
      exact changes.seqId other
    · exact (frames.desc d same).same.seqId
  have tags : ∀ d val, (run.state (index + 1)).CarriesTag config d val →
      (run.state index).CarriesTag config d val := by
    intro d val carried
    rw [State.CarriesTag, seqIds] at carried
    exact carried
  have exchanged : ∀ val newVal, pc = .cas val newVal → (run.state index).mem
      ((run.state index).desc (config.offset p call.locationId)).sharedAddress = val →
      TookEffect run (config.offset p call.locationId) (index + 1) := by
    rintro val newVal rfl same
    exact since_of_mark (truthful.stored p call _ inside rfl)
      ⟨before, p, call, val, newVal, acts, inside, rfl, same⟩
      (not_storesStatus acts inside (.inl other))
  have ready := sound.ready p call pc inside
  have placedOwn := sound.shared _ ready.shared
  rw [config.locationOf_offset _ ready.process] at placedOwn
  refine ⟨fun d succ => ?_, fun address d placed carried => ?_,
    fun u call' pc' val d inside' carries placed different carried => ?_,
    fun u call' pc' inside' swapped => ?_, fun u call' pc' inside' stored => ?_⟩
  · by_cases same : d = config.offset p call.locationId
    · subst same
      by_cases own : ∃ tmpStatus, pc = .storeSucc tmpStatus
      · obtain ⟨tmpStatus, rfl⟩ := own
        exact kept _ (truthful.swapped p call _ inside rfl)
      · exact kept _ (truthful.succ _ (changes.succ (fun tmp here => own ⟨tmp, here⟩) succ))
    · rcases changes.helps d same succ with already | ⟨val, actualValue, rfl, here, sameSeq⟩
      · exact kept d (truthful.succ d already)
      · have fits := sound.fits p call _ inside
        have process : config.processOf d = processIdOf val - 1 := by
          rw [here, config.processOf_offset _ fits.2.1]
        have location : config.locationOf d = call.locationId := by
          rw [here, config.locationOf_offset _ fits.2.1]
        have tagged := fits.1
        refine kept d (truthful.helpers p call _ val d inside rfl location.symm ?_
          ⟨by omega, sameSeq.symm⟩)
        intro own
        rw [process] at own
        rw [← own] at here
        exact same here
  · rcases cases with ⟨val, newVal, rfl, same, after⟩ | passes
    · by_cases here : address =
          ((run.state index).desc (config.offset p call.locationId)).sharedAddress
      · rw [here, placedOwn, Option.some.injEq] at placed
        have carried := tags d _ carried
        rw [here, after, State.goto_mem, State.storeWord_mem_self] at carried
        rw [sound.carriesTag_newVal inside placed.symm carried]
        exact exchanged val newVal rfl same
      · have carried := tags d _ carried
        rw [after, State.goto_mem, State.storeWord_mem_of_ne _ here] at carried
        exact kept d (truthful.words address d placed carried)
    · have carried := tags d _ carried
      rw [passes.leaves address (by rw [placed]; simp)] at carried
      exact kept d (truthful.words address d placed carried)
  · have carried := tags d _ carried
    by_cases same : u = p
    · subst same
      obtain rfl := State.stepCall_call performed inside'
      rcases changes.carries pc' val inside' carries with already | loaded
      · exact kept d (truthful.helpers u call' pc val d inside already placed different carried)
      · rw [loaded] at carried
        exact kept d (truthful.words _ d (by rw [placedOwn, placed]) carried)
    · rw [frames.procs u same] at inside'
      exact kept d (truthful.helpers u call' pc' val d inside' carries placed different carried)
  · by_cases same : u = p
    · subst same
      obtain rfl := State.stepCall_call performed inside'
      rcases cases with ⟨val, newVal, rfl, same, -⟩ | passes
      · exact exchanged val newVal rfl same
      · rw [passes.inside pc' inside'] at swapped
        exact kept _ (truthful.swapped u call' pc inside swapped)
    · rw [frames.procs u same] at inside'
      exact kept _ (truthful.swapped u call' pc' inside' swapped)
  · have earlier : ∃ first, first < index ∧
        StoresStatus run (config.offset u call'.locationId) first := by
      by_cases same : u = p
      · subst same
        obtain rfl := State.stepCall_call performed inside'
        rcases changes.stored pc' inside' stored with already | ⟨val, seqId, absurdly⟩
        · exact truthful.stored u call' pc inside already
        · exact absurd absurdly (other val seqId)
      · rw [frames.procs u same] at inside'
        exact truthful.stored u call' pc' inside' stored
    obtain ⟨first, inTime, stores⟩ := earlier
    exact ⟨first, Nat.lt_succ_of_lt inTime, stores⟩

/-- The beginning of an attempt. -/
theorem Truthful.of_storeStatus {p val : Nat} {call : Call} {seqId : Fin 16}
    (truthful : Truthful run index) (before : index < run.length)
    (acts : run.action index = .step p)
    (inside : (run.state index).procs p = .inside call (.storeStatus val seqId))
    (unused : (run.state index).Unused config p call.locationId (seqId + 1)) :
    Truthful run (index + 1) := by
  have sound := Sound.of_run run index (Nat.le_of_lt before)
  have performed : (run.state index).next config (run.action index) =
      some (run.state (index + 1)) := run.steps index before
  rw [acts, State.next, inside] at performed
  have after := (Option.some.inj performed).symm
  have ready := sound.ready p call _ inside
  have kept : ∀ d, d ≠ config.offset p call.locationId → TookEffect run d index →
      TookEffect run d (index + 1) :=
    fun d different effect => Since.succ effect (not_storesStatus acts inside (.inr different))
  have others : ∀ d, d ≠ config.offset p call.locationId →
      (run.state (index + 1)).desc d = (run.state index).desc d := by
    intro d different
    rw [after, State.goto_desc, State.setDesc_desc_of_ne _ different]
  have own : ((run.state (index + 1)).desc (config.offset p call.locationId)).statusInfo =
      ⟨seqId + 1, false⟩ := by
    rw [after, State.goto_desc, State.setDesc_desc_self]
  have mem : (run.state (index + 1)).mem = (run.state index).mem := by
    rw [after]
    rfl
  have process := config.processOf_offset call.locationId ready.process
  have location := config.locationOf_offset call.locationId ready.process
  have tags : ∀ d value, d ≠ config.offset p call.locationId →
      (run.state (index + 1)).CarriesTag config d value →
        (run.state index).CarriesTag config d value := by
    intro d value different carried
    rw [State.CarriesTag, others d different] at carried
    exact carried
  have tagOwn : ∀ value,
      (run.state (index + 1)).CarriesTag config (config.offset p call.locationId) value →
        processIdOf value = p + 1 ∧ seqIdOf value = seqId + 1 := by
    intro value carried
    rw [State.CarriesTag, own, process] at carried
    exact carried
  have procs : ∀ u call' pc', (run.state (index + 1)).procs u = .inside call' pc' →
      (u = p ∧ call' = call ∧ pc' = .clearPrivateAddrSet val) ∨
        (u ≠ p ∧ (run.state index).procs u = .inside call' pc') := by
    intro u call' pc' inside'
    rw [after] at inside'
    by_cases same : u = p
    · subst same
      rw [State.goto_procs_self] at inside'
      cases inside'
      exact .inl ⟨rfl, rfl, rfl⟩
    · rw [State.goto_procs_of_ne _ same] at inside'
      exact .inr ⟨same, inside'⟩
  refine ⟨fun d succ => ?_, fun address d placed carried => ?_,
    fun u call' pc' value d inside' carries placed different carried => ?_,
    fun u call' pc' inside' swapped => ?_, fun u call' pc' inside' stored => ?_⟩
  · by_cases same : d = config.offset p call.locationId
    · rw [same, own] at succ
      cases succ
    · rw [others d same] at succ
      exact kept d same (truthful.succ d succ)
  · rw [mem] at carried
    by_cases same : d = config.offset p call.locationId
    · subst same
      rw [location] at placed
      exact absurd (tagOwn _ carried) (unused.words address placed)
    · exact kept d same (truthful.words address d placed (tags d _ same carried))
  · rcases procs u call' pc' inside' with ⟨rfl, rfl, rfl⟩ | ⟨notOwn, inside'⟩
    · cases carries
    · by_cases same : d = config.offset p call.locationId
      · subst same
        rw [location] at placed
        exact absurd (tagOwn _ carried)
          (unused.helpers u call' pc' value notOwn inside' placed carries)
      · exact kept d same (truthful.helpers u call' pc' value d inside' carries placed different
          (tags d _ same carried))
  · rcases procs u call' pc' inside' with ⟨rfl, rfl, rfl⟩ | ⟨notOwn, inside'⟩
    · cases swapped
    · exact kept _ (sound.offset_ne inside inside' notOwn)
        (truthful.swapped u call' pc' inside' swapped)
  · rcases procs u call' pc' inside' with ⟨rfl, rfl, rfl⟩ | ⟨notOwn, inside'⟩
    · exact ⟨index, Nat.lt_succ_self index, before, u, call', val, seqId, acts, inside, rfl⟩
    · obtain ⟨first, inTime, stores⟩ := truthful.stored u call' pc' inside' stored
      exact ⟨first, Nat.lt_succ_of_lt inTime, stores⟩

theorem Truthful.succ_index (truthful : Truthful run index) (before : index < run.length)
    (fresh : FreshSeqId config (run.state index) (run.action index)) :
    Truthful run (index + 1) := by
  have performed : (run.state index).next config (run.action index) =
      some (run.state (index + 1)) := run.steps index before
  cases acts : run.action index with
  | step p =>
    rw [acts, State.next] at performed
    split at performed
    · next call pc inside =>
      by_cases store : ∃ val seqId, pc = .storeStatus val seqId
      · obtain ⟨val, seqId, rfl⟩ := store
        exact truthful.of_storeStatus before acts inside (fresh p call val seqId acts inside)
      · exact truthful.of_step before acts inside fun val seqId same => store ⟨val, seqId, same⟩
    · cases performed
  | process p call =>
    rw [acts, State.next, Option.ite_none_right_eq_some, Option.some.injEq] at performed
    obtain ⟨-, after⟩ := performed
    refine truthful.of_quiet (by simp [acts]) (by rw [← after]; rfl) (fun d => by rw [← after]; rfl) ?_
    intro u call' pc' inside
    rw [← after] at inside
    by_cases same : u = p
    · subst same
      rw [State.goto_procs_self] at inside
      cases inside
      exact .inr rfl
    · rw [State.goto_procs_of_ne _ same] at inside
      exact .inl inside
  | setSharedAddress p l address | setPrivateAddress p l address | setOpType p l opType =>
    simp only [acts, State.next, State.set, Option.ite_none_right_eq_some, Option.some.injEq]
      at performed
    obtain ⟨-, after⟩ := performed
    refine truthful.of_quiet (by simp [acts]) (by rw [← after]; rfl) (fun d => ?_)
      fun u call' pc' inside => .inl (by rw [← after] at inside; exact inside)
    rw [← after]
    by_cases same : d = config.offset p l
    · rw [same, State.setDesc_desc_self]
    · rw [State.setDesc_desc_of_ne _ same]

end Steps

theorem truthful_zero (run : Run (system config)) : Truthful run 0 := by
  have initial : (run.state 0).Initial config := run.starts
  refine ⟨fun d succ => ?_, fun address d placed carried => ?_,
    fun u call pc val d inside => ?_, fun p call pc inside => ?_, fun p call pc inside => ?_⟩
  · rw [initial.desc] at succ
    cases succ
  · have tag := carried.1
    rw [processIdOf_eq_zero (initial.untagged address (by rw [placed]; simp))] at tag
    cases tag
  · rw [initial.procs] at inside
    cases inside
  · rw [initial.procs] at inside
    cases inside
  · rw [initial.procs] at inside
    cases inside

theorem Truthful.of_run (run : Run (system config)) (meets : run.Meets (FreshSeqId config))
    (index : Nat) (inside : index ≤ run.length) : Truthful run index := by
  induction index with
  | zero => exact truthful_zero run
  | succ index inductionHypothesis =>
    exact (inductionHypothesis (Nat.le_of_lt inside)).succ_index inside (meets index inside)

/-- In every run whose attempts take fresh sequence numbers the status tells the truth. -/
theorem statusTrue_of_run (run : Run (system config)) (meets : run.Meets (FreshSeqId config)) :
    StatusTrue run where
  succ index inside := (Truthful.of_run run meets index inside).succ
  recovered index inside d rolls := by
    have truthful := Truthful.of_run run meets index inside
    obtain ⟨set, -, succ | carried⟩ := rolls
    · exact truthful.succ d succ
    · exact truthful.words _ d ((Sound.of_run run index inside).shared d set) carried

/-! ### Concrete runs -/

/-- A test of the condition for two processes and one word. -/
def State.freshSeqId (state : State) : Action → Bool
  | .step p =>
    match state.procs p with
    | .inside _ (.storeStatus _ seqId) =>
      !(processIdOf (state.mem 8) == p + 1 && seqIdOf (state.mem 8) == seqId + 1) &&
        (List.range 2).all fun u => u == p ||
          match state.procs u with
          | .inside _ pc => pc.carries.all fun val =>
            !(processIdOf val == p + 1 && seqIdOf val == seqId + 1)
          | _ => true
    | _ => true
  | _ => true

theorem freshSeqId_of_test {state : State} {action : Action} (sound : Sound .two state)
    (passes : state.freshSeqId action = true) : FreshSeqId .two state action := by
  intro p call val seqId acts inside
  subst acts
  simp only [State.freshSeqId, inside, Bool.and_eq_true, List.all_eq_true, List.mem_range] at passes
  obtain ⟨word, helpers⟩ := passes
  refine ⟨fun address placed carried => ?_,
    fun u call' pc' val' other inside' _ carries carried => ?_⟩
  · have here : address = 8 := by
      by_contra elsewhere
      simp [Config.two, elsewhere] at placed
    rw [here] at carried
    simp [carried.1, carried.2] at word
  · have tested := helpers u (sound.ready u call' pc' inside').process
    simp [other, inside', carries, carried.1, carried.2] at tested

/-- There the help of process 0 sets the success bit of process 1. -/
theorem statusTrue_of_run_helpedSwap : ∃ run : Run (system .two),
    run.Meets (FreshSeqId .two) ∧ ((run.state 22).desc 1).statusInfo.succ = false ∧
      ((run.state 23).desc 1).statusInfo.succ = true ∧ TookEffect run 1 23 ∧ StatusTrue run := by
  obtain ⟨run, length, states, actions⟩ := exists_run .two helpedSwap (by decide +kernel)
  have meets : run.Meets (FreshSeqId .two) := by
    intro index inside
    have sound := Sound.of_run run index (Nat.le_of_lt inside)
    rw [length] at inside
    rw [actions]
    exact freshSeqId_of_test sound (test_of_replayTests State.freshSeqId (by decide +kernel) inside
      (states index))
  have statusTrue := statusTrue_of_run run meets
  have after := satisfies_of_replay (fun state => (state.desc 1).statusInfo.succ = true) (states 23)
    (by decide +kernel)
  exact ⟨run, meets,
    satisfies_of_replay (fun state => (state.desc 1).statusInfo.succ = false) (states 22)
      (by decide +kernel), after,
    statusTrue.succ 23 (by rw [length]; decide) 1 after, statusTrue⟩

/-- Process 0 reads the tag of the first attempt of process 1 and is about to help. Process 1 makes
fifteen more attempts and begins the next one, with the sequence number of the first. Process 0
helps. -/
def staleHelper : List Action :=
  setAddresses ++ wholeCall 0 5 ++ [Action.process 0 ⟨0, 5, 9⟩, Action.step 0, Action.step 0] ++
    (List.replicate 15 (wholeCall 5 5)).flatten ++
    Action.process 1 ⟨0, 5, 7⟩ :: List.replicate 8 (Action.step 1) ++ List.replicate 5 (Action.step 0)

/-- The process of the action is about to exchange the shared word. -/
def State.exchanging (state : State) : Action → Bool
  | .step p =>
    match state.procs p with
    | .inside _ (.cas _ _) => true
    | _ => false
  | _ => false

theorem Exchanges.exchanging {run : Run (system config)} {d index : Nat}
    (exchanges : Exchanges run d index) :
    (run.state index).exchanging (run.action index) = true := by
  obtain ⟨-, p, call, val, newVal, acts, inside, -⟩ := exchanges
  rw [acts]
  simp only [State.exchanging, inside]

/-- The success bit of process 1 is set, and the attempt it belongs to has exchanged nothing. -/
theorem exists_not_statusTrue : ∃ run : Run (system .two), ¬ StatusTrue run := by
  obtain ⟨run, length, states, actions⟩ := exists_run .two staleHelper (by decide +kernel)
  refine ⟨run, fun statusTrue => ?_⟩
  have set := satisfies_of_replay (fun state => (state.desc 1).statusInfo.succ = true) (states 277)
    (by decide +kernel)
  have stores : StoresStatus run 1 269 := by
    have here := satisfies_of_replay (fun state => state.procs 1 = .inside ⟨0, 5, 7⟩
      (.storeStatus (taggedValue 2 5 0) 0)) (states 269) (by decide +kernel)
    refine ⟨by rw [length]; decide +kernel, 1, _, _, _, (actions 269).trans (by decide +kernel), here, rfl⟩
  have quiet : ∀ index, 269 < index → index < 277 → ¬ Exchanges run 1 index := by
    intro index after before exchanges
    have tested := exchanges.exchanging
    rw [actions] at tested
    have passes : (List.range 7).all (fun count =>
        (replay (State.next .two) (staleHelper.take (270 + count)) (.start .two)).any fun state =>
          !state.exchanging (staleHelper.getD (270 + count) default)) = true := by
      decide +kernel
    have here := List.all_eq_true.mp passes (index - 270) (List.mem_range.mpr (by omega))
    rw [show 270 + (index - 270) = index by omega, states index, Option.any_some, tested] at here
    cases here
  obtain ⟨first, last, later, before, -, exchanges, none_⟩ :=
    statusTrue.succ 277 (by rw [length]; decide +kernel) 1 set
  have notEarlier : 269 ≤ first := by
    by_contra earlier
    exact none_ 269 (by omega) (by decide) stores
  exact quiet last (by omega) before exchanges

end Pmwcas.OptmizedFasas
