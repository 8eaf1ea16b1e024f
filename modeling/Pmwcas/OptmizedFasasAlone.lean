/-
This file is about a call of `OptmizedFASASDescriptor::process()` that runs alone, and about
`FetchStoreStore::fasas`, which calls it in a loop. The shared word may carry the tag of any
operation, whose descriptor may have any content: `process()` then helps it first.
-/

import Pmwcas.Library.Result
import Pmwcas.OptmizedFasasMachine

namespace Pmwcas.OptmizedFasas

open Transition

/-! ### The code -/

/-- What `process()` of process `p` returns. -/
def State.processResult (p : Nat) (state : State) : Option Bool :=
  match state.procs p with
  | .returned result => some result
  | _ => none

/-- `process()` of process `p`, which runs alone. -/
def State.processAlone (config : Config) (p : Nat) (call : Call) (state : State) (fuel : Nat) :
    Option (Bool × State) :=
  (state.next config (.process p call)).bind
    (runUntil (fun state => state.next config (.step p)) (State.processResult p) fuel)

/-- `getValueProtectedOfSharedVar`. It has to find the descriptor that the tag names, if that is not
its own, but `helpWithShareValue` only reads it and flushes the shared word. -/
def State.getValueProtectedOfSharedVar (config : Config) (address locationId processId : Nat)
    (state : State) : Option Nat :=
  if processIdOf (state.mem address) ≠ 0 ∧ processIdOf (state.mem address) ≠ processId then
    (config.getDescriptor state.desc (processIdOf (state.mem address) - 1) locationId).map fun _ =>
      actualValueOf (state.mem address)
  else some (actualValueOf (state.mem address))

/-- The arguments of `FetchStoreStore::fasas`. -/
structure FasasCall where
  shareAddr : Nat
  privateAddr : Nat
  newShareVal : Nat
  locId : Nat
  processId : Nat

/-- The loop of `FetchStoreStore::fasas`, with its check at the end. -/
def FasasCall.rounds (config : Config) (call : FasasCall) (fuel : Nat) :
    Nat → State → Option (Nat × State)
  | 0, _ => none
  | rounds + 1, state =>
    (state.getValueProtectedOfSharedVar config call.shareAddr call.locId call.processId).bind
      fun oldShareValue =>
        (state.processAlone config call.processId
          ⟨call.locId, oldShareValue, call.newShareVal⟩ fuel).bind fun returned =>
          if returned.1 then
            if oldShareValue = returned.2.mem call.privateAddr then some (oldShareValue, returned.2)
            else none
          else call.rounds config fuel rounds returned.2

/-- `FetchStoreStore::fasas`. -/
def fasas (config : Config) (call : FasasCall) (state : State) (fuel : Nat) : Option (Nat × State) :=
  (config.getDescriptor state.desc call.processId call.locId).bind fun _ =>
    (replay (State.next config) [.setSharedAddress call.processId call.locId call.shareAddr,
      .setPrivateAddress call.processId call.locId call.privateAddr,
      .setOpType call.processId call.locId .fasas] state).bind (call.rounds config fuel fuel)

/-! ### Steps of a process that is alone -/

variable {config : Config} {p d : Nat} {call : Call} {mem mem' mem'' : Nat → Nat}
  {desc desc' desc'' : Nat → OptmizedFASASDescriptor} {pc next : Pc} {last : Process}

/-- A step inside of a call. -/
def Advances (config : Config) (p : Nat) (before after : State) : Prop :=
  (∃ call pc, before.procs p = .inside call pc) ∧ before.next config (.step p) = some after

/-- The call gets from a program point to where it is at last, and changes words and descriptors on
its way as given. -/
def Leads (config : Config) (p : Nat) (call : Call) (mem : Nat → Nat)
    (desc : Nat → OptmizedFASASDescriptor) (pc : Pc) (mem' : Nat → Nat)
    (desc' : Nat → OptmizedFASASDescriptor) (last : Process) : Prop :=
  ∀ state : State, state.mem = mem → state.desc = desc → state.procs p = .inside call pc →
    ∃ after : State, Relation.ReflTransGen (Advances config p) state after ∧ after.mem = mem' ∧
      after.desc = desc' ∧ after.procs p = last

namespace Leads

theorem one (performed : ∀ state : State, state.mem = mem → state.desc = desc → ∃ after : State,
      state.stepCall config p (config.offset p call.locationId) call pc = some (after.goto p last) ∧
      after.mem = mem' ∧ after.desc = desc') :
    Leads config p call mem desc pc mem' desc' last := by
  intro state sameMem sameDesc inside
  obtain ⟨after, goes, newMem, newDesc⟩ := performed state sameMem sameDesc
  have step : Advances config p state (after.goto p last) := by
    refine ⟨⟨call, pc, inside⟩, ?_⟩
    rw [State.next, inside]
    exact goes
  exact ⟨_, .single step, newMem, newDesc, State.goto_procs_self ..⟩

theorem trans (first : Leads config p call mem desc pc mem' desc' (.inside call next))
    (second : Leads config p call mem' desc' next mem'' desc'' last) :
    Leads config p call mem desc pc mem'' desc'' last := by
  intro state sameMem sameDesc inside
  obtain ⟨middle, start, middleMem, middleDesc, there⟩ := first state sameMem sameDesc inside
  obtain ⟨after, rest, same⟩ := second middle middleMem middleDesc there
  exact ⟨after, start.trans rest, same⟩

end Leads

/-! ### Helping -/

/-- The descriptor that a tag names is in the pool, if there is one. -/
def Consistent (config : Config) (desc : Nat → OptmizedFASASDescriptor) (locationId val : Nat) : Prop :=
  processIdOf val ≠ 0 →
    config.getDescriptor desc (processIdOf val - 1) locationId =
      some (config.offset (processIdOf val - 1) locationId)

/-- `helpProcess()` with the expected value, on a descriptor with any content. -/
theorem help_leads (config : Config) (p : Nat) (mem : Nat → Nat)
    (desc : Nat → OptmizedFASASDescriptor) {val : Nat} (expected : actualValueOf val = call.oldval) :
    ∃ helped, Leads config p call mem desc (.helpCheckSet val (actualValueOf val)) mem
      (Function.update desc (config.offset (processIdOf val - 1) call.locationId) helped)
      (.inside call (.storeOld val)) := by
  generalize place : config.offset (processIdOf val - 1) call.locationId = h
  have after : State.afterHelp call val (actualValueOf val) = .inside call (.storeOld val) := by
    rw [State.afterHelp, expected]
    exact if_neg fun different => different rfl
  by_cases set : (desc h).isShareVarSet = true
  · refine ⟨desc h, ?_⟩
    rw [Function.update_eq_self]
    refine .one ?_
    rintro state rfl rfl
    refine ⟨state, ?_, rfl, rfl⟩
    simp only [State.stepCall, place, set, if_true, after]
  · have checksSet : Leads config p call mem desc (.helpCheckSet val (actualValueOf val)) mem desc
        (.inside call (.helpCheckSeq val (actualValueOf val))) := by
      refine .one ?_
      rintro state rfl rfl
      refine ⟨state, ?_, rfl, rfl⟩
      simp only [State.stepCall, place, set, Bool.false_eq_true, if_false]
    by_cases other : seqIdOf val ≠ (desc h).statusInfo.seqId
    · refine ⟨desc h, ?_⟩
      rw [Function.update_eq_self]
      refine checksSet.trans (.one ?_)
      rintro state rfl rfl
      refine ⟨state, ?_, rfl, rfl⟩
      simp only [State.stepCall, place, if_pos other, after]
    · have checksSeq : Leads config p call mem desc (.helpCheckSeq val (actualValueOf val)) mem desc
          (.inside call (.helpCheckAgain val (actualValueOf val))) := by
        refine .one ?_
        rintro state rfl rfl
        refine ⟨state, ?_, rfl, rfl⟩
        simp only [State.stepCall, place, if_neg other]
      have checksAgain : Leads config p call mem desc (.helpCheckAgain val (actualValueOf val)) mem
          desc (.inside call (.helpLoadStatus val (actualValueOf val))) := by
        refine .one ?_
        rintro state rfl rfl
        refine ⟨state, ?_, rfl, rfl⟩
        simp only [State.stepCall, place, set, Bool.false_eq_true, if_false, expected, ne_eq,
          not_true_eq_false]
      have begins := checksSet.trans (checksSeq.trans checksAgain)
      have ends : ∀ desc, Leads config p call mem desc (.helpCheckLast val (actualValueOf val)) mem desc
          (.inside call (.storeOld val)) := by
        intro desc
        refine .one ?_
        rintro state rfl rfl
        refine ⟨state, ?_, rfl, rfl⟩
        simp only [State.stepCall, after]
      by_cases failed : (desc h).statusInfo = ⟨seqIdOf val, false⟩
      · have loads : Leads config p call mem desc (.helpLoadStatus val (actualValueOf val)) mem desc
            (.inside call (.helpCas val (actualValueOf val))) := by
          refine .one ?_
          rintro state rfl rfl
          refine ⟨state, ?_, rfl, rfl⟩
          simp only [State.stepCall, place, if_pos failed]
        have swaps : Leads config p call mem desc (.helpCas val (actualValueOf val)) mem
            (Function.update desc h { desc h with statusInfo := ⟨seqIdOf val, true⟩ })
            (.inside call (.helpCheckLast val (actualValueOf val))) := by
          refine .one ?_
          rintro state rfl rfl
          refine ⟨state.setDesc h { state.desc h with statusInfo := ⟨seqIdOf val, true⟩ }, ?_, rfl, rfl⟩
          simp only [State.stepCall, place, if_pos failed]
        exact ⟨_, begins.trans (loads.trans (swaps.trans (ends _)))⟩
      · refine ⟨desc h, ?_⟩
        rw [Function.update_eq_self]
        have loads : Leads config p call mem desc (.helpLoadStatus val (actualValueOf val)) mem desc
            (.inside call (.helpCheckLast val (actualValueOf val))) := by
          refine .one ?_
          rintro state rfl rfl
          refine ⟨state, ?_, rfl, rfl⟩
          simp only [State.stepCall, place, if_neg failed]
        exact begins.trans (loads.trans (ends _))

/-! ### `process()` -/

/-- The descriptor when `addDescriptorToShareVar` is called. -/
def prepared (descriptor : OptmizedFASASDescriptor) (call : Call) : OptmizedFASASDescriptor :=
  { descriptor with
    oldShareVarValue := call.oldval
    newShareVarValue := call.newval
    isPrivateAddrSet := false
    isShareVarSet := false
    statusInfo := ⟨descriptor.statusInfo.seqId + 1, false⟩ }

/-- The descriptor after `isShareVarSet_ = true`. -/
def concluded (descriptor : OptmizedFASASDescriptor) : OptmizedFASASDescriptor :=
  { descriptor with
    isShareVarSet := true
    statusInfo := ⟨descriptor.statusInfo.seqId, true⟩ }

section Process

variable {descriptor : OptmizedFASASDescriptor} {val : Nat}
  (own : config.offset p call.locationId = d)

include own

/-- A step that stores to the own descriptor. -/
theorem Leads.write {before : OptmizedFASASDescriptor} (after : OptmizedFASASDescriptor) (next : Pc)
    (stores : ∀ state : State, state.mem = mem → state.desc d = before →
      state.stepCall config p d call pc = some ((state.setDesc d after).goto p (.inside call next))) :
    Leads config p call mem (Function.update desc d before) pc mem (Function.update desc d after)
      (.inside call next) := by
  refine .one ?_
  rintro state rfl now
  refine ⟨state.setDesc d after, ?_, rfl, ?_⟩
  · rw [own]
    exact stores state rfl (by rw [now, Function.update_self])
  · show Function.update state.desc d after = _
    rw [now, Function.update_idem]

/-- A step that only reads. -/
theorem Leads.look {before : OptmizedFASASDescriptor} (next : Pc)
    (reads : ∀ state : State, state.mem = mem → state.desc d = before →
      state.stepCall config p d call pc = some (state.goto p (.inside call next))) :
    Leads config p call mem (Function.update desc d before) pc mem (Function.update desc d before)
      (.inside call next) := by
  refine .one ?_
  rintro state rfl now
  refine ⟨state, ?_, rfl, now⟩
  rw [own]
  exact reads state rfl (by rw [now, Function.update_self])

theorem prepare_leads : Leads config p call mem (Function.update desc d descriptor) (.storeOld val) mem
    (Function.update desc d (prepared descriptor call)) (.inside call (.loadNewVal val)) := by
  refine .trans (.write own { descriptor with oldShareVarValue := call.oldval } (.storeNew val) ?_)
    (.trans (.write own { descriptor with
        oldShareVarValue := call.oldval, newShareVarValue := call.newval } (.loadSeq val) ?_)
      (.trans (.look own (.storeStatus val descriptor.statusInfo.seqId) ?_)
        (.trans (.write own { descriptor with
            oldShareVarValue := call.oldval, newShareVarValue := call.newval,
            statusInfo := ⟨descriptor.statusInfo.seqId + 1, false⟩ } (.clearPrivateAddrSet val) ?_)
          (.trans (.write own { descriptor with
              oldShareVarValue := call.oldval, newShareVarValue := call.newval,
              statusInfo := ⟨descriptor.statusInfo.seqId + 1, false⟩, isPrivateAddrSet := false }
              (.clearShareVarSet val) ?_)
            (.write own (prepared descriptor call) (.loadNewVal val) ?_)))))
  all_goals
    intro state _ now
    rw [State.stepCall, now]
  rfl

/-- The exchange of the shared word. -/
theorem swap_leads (current : mem descriptor.sharedAddress = val) :
    Leads config p call mem (Function.update desc d descriptor) (.loadNewVal val)
      (Function.update mem descriptor.sharedAddress (taggedValue descriptor.processId
        descriptor.newShareVarValue descriptor.statusInfo.seqId))
      (Function.update desc d descriptor) (.inside call .loadStatus) := by
  refine .trans (.look own (.cas val (taggedValue descriptor.processId descriptor.newShareVarValue
    descriptor.statusInfo.seqId)) ?_) (.one ?_)
  · intro state _ now
    rw [State.stepCall, now]
  · rintro state rfl now
    refine ⟨state.storeWord descriptor.sharedAddress (taggedValue descriptor.processId
      descriptor.newShareVarValue descriptor.statusInfo.seqId), ?_, rfl, now⟩
    have address : (state.desc d).sharedAddress = descriptor.sharedAddress := by
      rw [now, Function.update_self]
    rw [own]
    simp only [State.stepCall, address, current, if_true]

/-- What follows a successful exchange. -/
theorem conclude_leads : Leads config p call mem (Function.update desc d descriptor) .loadStatus
    (Function.update mem descriptor.privateAddress descriptor.privateValue)
    (Function.update desc d { concluded descriptor with isPrivateAddrSet := true })
    (.returned true) := by
  have succeeds : Leads config p call mem (Function.update desc d descriptor) .loadStatus mem
      (Function.update desc d (concluded descriptor)) (.inside call .storePrivate) := by
    refine .trans (.look own (.storeSucc descriptor.statusInfo) ?_)
      (.trans (.write own { descriptor with statusInfo := ⟨descriptor.statusInfo.seqId, true⟩ }
        .setShareVarSet ?_) (.write own (concluded descriptor) .storePrivate ?_))
    all_goals
      intro state _ now
      rw [State.stepCall, now]
    rfl
  have storesPrivate : Leads config p call mem (Function.update desc d (concluded descriptor))
      .storePrivate (Function.update mem descriptor.privateAddress descriptor.privateValue)
      (Function.update desc d (concluded descriptor)) (.inside call .setPrivateAddrSet) := by
    refine .one ?_
    rintro state rfl now
    refine ⟨state.storeWord descriptor.privateAddress descriptor.privateValue, ?_, rfl, now⟩
    rw [own, State.stepCall, now, Function.update_self]
    rfl
  refine succeeds.trans (storesPrivate.trans (.one ?_))
  intro state sameMem now
  refine ⟨state.setDesc d { concluded descriptor with isPrivateAddrSet := true }, ?_, sameMem, ?_⟩
  · rw [own, State.stepCall, now, Function.update_self]
  · show Function.update state.desc d _ = _
    rw [now, Function.update_idem]

/-- `process()` on a shared word with the expected value, whatever its tag. -/
theorem process_leads (content : desc d = descriptor)
    (current : mem descriptor.sharedAddress = val) (expected : actualValueOf val = call.oldval)
    (ownTag : descriptor.processId = p + 1)
    (consistent : Consistent config desc call.locationId val) :
    ∃ seqId desc', Leads config p call mem desc .loadVal
      (Function.update (Function.update mem descriptor.sharedAddress
        (taggedValue (p + 1) call.newval seqId)) descriptor.privateAddress
        (descriptor.opType.result call.oldval)) desc' (.returned true) := by
  have loads : Leads config p call mem desc .loadVal mem desc (.inside call (.loadActual val)) := by
    refine .one ?_
    rintro state rfl rfl
    refine ⟨state, ?_, rfl, rfl⟩
    rw [own, State.stepCall, content, current]
  have stores : ∀ {desc' : Nat → OptmizedFASASDescriptor}, desc' d = descriptor → ∃ seqId desc'',
      Leads config p call mem desc' (.storeOld val)
        (Function.update (Function.update mem descriptor.sharedAddress
          (taggedValue (p + 1) call.newval seqId)) descriptor.privateAddress
          (descriptor.opType.result call.oldval)) desc'' (.returned true) := by
    intro desc' here
    have prepares : Leads config p call mem (Function.update desc' d descriptor) (.storeOld val) mem
        (Function.update desc' d (prepared descriptor call)) (.inside call (.loadNewVal val)) :=
      prepare_leads own
    rw [← here, Function.update_eq_self, here] at prepares
    have swaps : Leads config p call mem (Function.update desc' d (prepared descriptor call))
        (.loadNewVal val)
        (Function.update mem descriptor.sharedAddress (taggedValue descriptor.processId call.newval
          (descriptor.statusInfo.seqId + 1)))
        (Function.update desc' d (prepared descriptor call)) (.inside call .loadStatus) :=
      swap_leads own current
    rw [← ownTag]
    exact ⟨_, _, prepares.trans (swaps.trans (conclude_leads own))⟩
  by_cases foreign : processIdOf val ≠ 0 ∧ processIdOf val ≠ descriptor.processId
  · obtain ⟨helped, helps⟩ := help_leads config p mem desc expected
    have enters : Leads config p call mem desc (.loadActual val) mem desc
        (.inside call (.helpCheckSet val (actualValueOf val))) := by
      refine .one ?_
      rintro state rfl rfl
      refine ⟨state, ?_, rfl, rfl⟩
      rw [own, State.stepCall, content, current, if_pos foreign, consistent foreign.1]
      rfl
    have other : d ≠ config.offset (processIdOf val - 1) call.locationId := by
      intro same
      have found := consistent foreign.1
      rw [Config.getDescriptor] at found
      split at found
      · rename_i inPool
        rw [← same, content] at inPool
        refine foreign.2 ?_
        rw [inPool.2.2]
        omega
      · cases found
    have untouched : Function.update desc (config.offset (processIdOf val - 1) call.locationId) helped d =
        descriptor := (Function.update_of_ne other ..).trans content
    obtain ⟨seqId, desc', rest⟩ := stores untouched
    exact ⟨seqId, desc', loads.trans (enters.trans (helps.trans rest))⟩
  · have enters : Leads config p call mem desc (.loadActual val) mem desc
        (.inside call (.storeOld val)) := by
      refine .one ?_
      rintro state rfl rfl
      refine ⟨state, ?_, rfl, rfl⟩
      rw [own, State.stepCall, content, current, if_neg foreign, State.afterHelp, expected,
        if_neg fun different => different rfl]
    obtain ⟨seqId, desc', rest⟩ := stores content
    exact ⟨seqId, desc', loads.trans (enters.trans rest)⟩

end Process

/-! ### Calls that run alone -/

/-- `process()` alone. -/
theorem State.processAlone_yields {state : State} (idle : (state.procs p).Free)
    (ready : state.Ready config p call)
    (ownTag : (state.desc (config.offset p call.locationId)).processId = p + 1)
    (expected : actualValueOf (state.mem
      (state.desc (config.offset p call.locationId)).sharedAddress) = call.oldval)
    (consistent : Consistent config state.desc call.locationId
      (state.mem (state.desc (config.offset p call.locationId)).sharedAddress)) :
    ∃ seqId after, Yields (state.processAlone config p call) true after ∧
      after.mem = Function.update (Function.update state.mem
          (state.desc (config.offset p call.locationId)).sharedAddress
          (taggedValue (p + 1) call.newval seqId))
        (state.desc (config.offset p call.locationId)).privateAddress
        ((state.desc (config.offset p call.locationId)).opType.result call.oldval) := by
  have begins : state.next config (.process p call) =
      some (state.goto p (.inside call .loadVal)) := by
    rw [State.next, if_pos ⟨idle, ready⟩]
  obtain ⟨seqId, desc', leads⟩ := process_leads rfl rfl rfl expected ownTag consistent
  obtain ⟨after, reaches, newMem, -, there⟩ :=
    leads (state.goto p (.inside call .loadVal)) rfl rfl (State.goto_procs_self ..)
  have steps : Relation.ReflTransGen
      (Proceeds (fun state => state.next config (.step p)) (State.processResult p))
      (state.goto p (.inside call .loadVal)) after := by
    refine reaches.lift id ?_
    rintro before later ⟨⟨inner, pc, inside⟩, performed⟩
    refine ⟨?_, performed⟩
    simp only [State.processResult, id_eq, inside]
  have returns : State.processResult p after = some true := by
    simp only [State.processResult, there]
  obtain ⟨bound, enough⟩ := Yields.of_proceeds steps returns
  refine ⟨seqId, after, ⟨bound, fun fuel above => ?_⟩, newMem⟩
  rw [State.processAlone, begins, Option.bind_some]
  exact enough fuel above

/-- What callers owe to `FetchStoreStore::fasas`, and the pool to them: a process and a location with
a descriptor, a shared word of the location and a private word, and a new value of 48 bits. -/
structure FasasCall.Ready (config : Config) (call : FasasCall) (state : State) : Prop where
  idle : (state.procs call.processId).Free
  process : call.processId < config.maximumThreadNum
  pool : config.offset call.processId call.locId < config.poolSize
  ownTag : (state.desc (config.offset call.processId call.locId)).processId = call.processId + 1
  shareAddr_ne : call.shareAddr ≠ 0
  privateAddr_ne : call.privateAddr ≠ 0
  shared : config.location call.shareAddr = some call.locId
  private_ : config.location call.privateAddr = none
  newShareVal : call.newShareVal < 2 ^ 48
  consistent : Consistent config state.desc call.locId (state.mem call.shareAddr)

/-- The descriptor after the setters of `FetchStoreStore::fasas`. -/
def FasasCall.set (call : FasasCall) (descriptor : OptmizedFASASDescriptor) :
    OptmizedFASASDescriptor :=
  { descriptor with
    sharedAddress := call.shareAddr
    privateAddress := call.privateAddr
    opType := .fasas }

theorem FasasCall.Ready.sets {call : FasasCall} {state : State} (ready : call.Ready config state) :
    replay (State.next config) [.setSharedAddress call.processId call.locId call.shareAddr,
      .setPrivateAddress call.processId call.locId call.privateAddr,
      .setOpType call.processId call.locId .fasas] state =
    some (state.setDesc (config.offset call.processId call.locId)
      (call.set (state.desc (config.offset call.processId call.locId)))) := by
  simp [replay, State.next, State.set, ready.idle, ready.process, ready.shareAddr_ne, ready.shared,
    ready.privateAddr_ne, ready.private_, FasasCall.set, OpType.fasas, State.setDesc]

/-- A tag is consistent with the descriptors when their processes stay the same. -/
theorem Consistent.of_processId {locationId val : Nat} (consistent : Consistent config desc locationId val)
    (same : ∀ e, (desc' e).processId = (desc e).processId) :
    Consistent config desc' locationId val := by
  intro tagged
  have found := consistent tagged
  unfold Config.getDescriptor at found ⊢
  rw [same]
  exact found

/-- `FetchStoreStore::fasas` alone. -/
theorem fasas_yields {call : FasasCall} {state : State} (ready : call.Ready config state) :
    ∃ seqId after, Yields (fasas config call state) (actualValueOf (state.mem call.shareAddr)) after ∧
      after.mem = Function.update (Function.update state.mem call.shareAddr
          (taggedValue (call.processId + 1) call.newShareVal seqId))
        call.privateAddr (actualValueOf (state.mem call.shareAddr)) := by
  generalize oldShareValue : actualValueOf (state.mem call.shareAddr) = old
  have small : old < 2 ^ 48 := by
    rw [← oldShareValue, actualValueOf_eq]
    exact Nat.mod_lt _ (by decide)
  have finds : config.getDescriptor state.desc call.processId call.locId =
      some (config.offset call.processId call.locId) := by
    rw [Config.getDescriptor, if_pos ⟨ready.process, ready.pool, ready.ownTag⟩]
  generalize own : config.offset call.processId call.locId = d at finds
  have content : (state.setDesc d (call.set (state.desc d))).desc
      (config.offset call.processId call.locId) = call.set (state.desc d) := by
    rw [own, State.setDesc_desc_self]
  have consistent : Consistent config (state.setDesc d (call.set (state.desc d))).desc call.locId
      (state.mem call.shareAddr) := by
    refine ready.consistent.of_processId fun e => ?_
    by_cases same : e = d
    · rw [same, State.setDesc_desc_self]
      rfl
    · rw [State.setDesc_desc_of_ne _ same]
  have reads : (state.setDesc d (call.set (state.desc d))).getValueProtectedOfSharedVar config
      call.shareAddr call.locId call.processId = some old := by
    unfold State.getValueProtectedOfSharedVar
    rw [State.setDesc_mem, oldShareValue]
    split
    · rename_i foreign
      rw [consistent foreign.1]
      rfl
    · rfl
  have called : (state.setDesc d (call.set (state.desc d))).Ready config call.processId
      ⟨call.locId, old, call.newShareVal⟩ := by
    refine ⟨ready.process, ready.pool, ?_, ?_, small, ready.newShareVal⟩
    · rw [content]
      exact ready.shareAddr_ne
    · rw [content]
      exact ready.privateAddr_ne
  have idle : ((state.setDesc d (call.set (state.desc d))).procs call.processId).Free := ready.idle
  obtain ⟨seqId, after, ⟨bound, enough⟩, newMem⟩ :
      ∃ seqId after, Yields ((state.setDesc d (call.set (state.desc d))).processAlone config
        call.processId ⟨call.locId, old, call.newShareVal⟩) true after ∧ _ := by
    refine State.processAlone_yields idle called ?_ ?_ ?_
    · rw [content, ← own]
      exact ready.ownTag
    · rw [content]
      exact oldShareValue
    · rw [content]
      exact consistent
  rw [content] at newMem
  have newMem : after.mem = Function.update (Function.update state.mem call.shareAddr
      (taggedValue (call.processId + 1) call.newShareVal seqId)) call.privateAddr old := newMem
  refine ⟨seqId, after, ⟨bound + 1, fun fuel above => ?_⟩, newMem⟩
  obtain ⟨rounds, rfl⟩ : ∃ rounds, fuel = rounds + 1 := ⟨fuel - 1, by omega⟩
  have checks : old = after.mem call.privateAddr := by
    rw [newMem, Function.update_self]
  have sets := ready.sets
  rw [own] at sets
  rw [fasas, finds, Option.bind_some, sets, Option.bind_some]
  simp only [FasasCall.rounds, reads, Option.bind_some, enough (rounds + 1) (by omega), if_true,
    ← checks]

end Pmwcas.OptmizedFasas
