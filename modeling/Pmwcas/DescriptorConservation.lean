/-
This file proves that a partition neither loses a descriptor nor has one twice. Each descriptor is
on the free list, in one slot of the garbage list or in the hands of the thread, and three steps
move it: `AllocateDescriptor` takes it from the free list, the push of `MwCAS` or `Abort` puts it
into a slot, and `FreeDescriptor` moves it from its slot to the free list, in the middle of a walk
over the ring. What the garbage list does to its slots is taken from `GarbageSafety.lean`.
-/

import Pmwcas.DescriptorPartition

namespace Pmwcas.DescriptorPartition

open Transition

/-! ### Intrusive lists -/

/-- Following the links from `head` visits the descriptors of the list, and no others. -/
def Chain (nextPtr : Nat → Option Nat) : Option Nat → List Nat → Prop
  | none, [] => True
  | some d, e :: rest => d = e ∧ Chain nextPtr (nextPtr d) rest
  | _, _ => False

theorem Chain.update {nextPtr : Nat → Option Nat} {head : Option Nat} {list : List Nat}
    (chain : Chain nextPtr head list) {d : Nat} (absent : d ∉ list) (link : Option Nat) :
    Chain (Function.update nextPtr d link) head list := by
  induction list generalizing head with
  | nil =>
    cases head with
    | none => trivial
    | some e => exact chain
  | cons e rest inductionHypothesis =>
    cases head with
    | none => exact chain
    | some first =>
      obtain ⟨rfl, chain⟩ := chain
      rw [List.mem_cons, not_or] at absent
      refine ⟨rfl, ?_⟩
      rw [Function.update_of_ne (Ne.symm absent.1)]
      exact inductionHypothesis chain absent.2

theorem Chain.push {nextPtr : Nat → Option Nat} {head : Option Nat} {list : List Nat}
    (chain : Chain nextPtr head list) {d : Nat} (absent : d ∉ list) :
    Chain (Function.update nextPtr d head) (some d) (d :: list) := by
  refine ⟨rfl, ?_⟩
  rw [Function.update_self]
  exact chain.update absent head

theorem Chain.pop {nextPtr : Nat → Option Nat} {d : Nat} {list : List Nat}
    (chain : Chain nextPtr (some d) list) :
    ∃ rest, list = d :: rest ∧ Chain nextPtr (nextPtr d) rest := by
  cases list with
  | nil => exact absurd chain id
  | cons e rest =>
    obtain ⟨rfl, chain⟩ := chain
    exact ⟨rest, rfl, chain⟩

/-! ### The free lists the constructor makes -/

theorem foldl_add (descPerPartition count : Nat) :
    let state := (List.range count).foldl (Distribution.add descPerPartition)
      { nextPtr := fun _ => none, freeList := fun _ => none, partition := 0 }
    state.partition = count / descPerPartition ∧ ∀ partition, Chain state.nextPtr
      (state.freeList partition)
      ((List.range count).filter fun d => d / descPerPartition = partition).reverse := by
  induction count with
  | zero => exact ⟨(Nat.zero_div _).symm, fun _ => trivial⟩
  | succ count inductionHypothesis =>
    obtain ⟨here, chains⟩ := inductionHypothesis
    rw [List.range_succ, List.foldl_append, List.foldl_cons, List.foldl_nil]
    generalize (List.range count).foldl (Distribution.add descPerPartition)
      { nextPtr := fun _ => none, freeList := fun _ => none, partition := 0 } = state
      at here chains
    constructor
    · show (if (count + 1) % descPerPartition = 0 then _ else _) = _
      rw [Nat.succ_div, here]
      by_cases full : (count + 1) % descPerPartition = 0
      · rw [if_pos full, if_pos (Nat.dvd_of_mod_eq_zero full)]
      · rw [if_neg full, if_neg fun divides => full (Nat.mod_eq_zero_of_dvd divides)]
        rfl
    · intro partition
      have absent : count ∉ ((List.range count).filter
          fun d => d / descPerPartition = partition).reverse := by
        simp
      rw [List.filter_append, List.reverse_append]
      unfold Distribution.add
      dsimp only
      by_cases mine : partition = state.partition
      · subst mine
        have taken : [count].filter (fun d => d / descPerPartition = state.partition) = [count] := by
          simp [here]
        rw [taken, Function.update_self]
        exact (chains state.partition).push absent
      · have other : [count].filter (fun d => d / descPerPartition = partition) = [] := by
          simp [← here, Ne.symm mine]
        rw [other, Function.update_of_ne mine]
        exact (chains partition).update absent _

/-- The free list of a partition after construction. -/
def Config.firstFree (config : Config) : List Nat :=
  ((List.range config.layout.pool.size).filter
    fun d => d / config.layout.descPerPartition = config.index).reverse

theorem Config.chain_firstFree (config : Config) :
    Chain config.layout.distribute.nextPtr (config.layout.distribute.freeList config.index)
      config.firstFree :=
  (foldl_add config.layout.descPerPartition config.layout.pool.size).2 config.index

theorem Config.mem_firstFree (config : Config) (d : Nat) :
    d ∈ config.firstFree ↔ config.Member d := by
  simp [Config.firstFree, Config.Member]

theorem Config.nodup_firstFree (config : Config) : config.firstFree.Nodup :=
  List.nodup_reverse.2 (List.nodup_range.filter _)

/-! ### What `MwCAS` does to the descriptors -/

/-- The frame is one of `MwCAS`, and a status it is about to store is the current one. -/
def Loaded (desc : Nat → Descriptor) : Frame → Prop
  | .mwCAS d _ (.storeClear loaded) => loaded = (desc d).status
  | .mwCAS _ _ _ => True
  | .getValue _ _ => False

/-- The frame is one of `MwCAS` and not about to store a status. -/
def Waiting : Frame → Prop
  | .mwCAS _ _ (.storeClear _) => False
  | .mwCAS _ _ _ => True
  | .getValue _ _ => False

/-- The frames of the thread: those of call depth zero run on descriptors it has, and only the top
frame may be about to store a status, which is then the current one. -/
inductive FramesOk (desc : Nat → Descriptor) (held : List Nat) : List Frame → Prop where
  | nil : FramesOk desc held []
  | cons {frame : Frame} {rest : List Frame} (loaded : Loaded desc frame)
      (waiting : ∀ other ∈ rest, Waiting other)
      (owned : ∀ d pc, .mwCAS d 0 pc ∈ frame :: rest → d ∈ held) : FramesOk desc held (frame :: rest)

theorem compareExchange64_desc (shared : Shared) (address : Nat) (newValue comparand : Word) :
    (shared.compareExchange64 address newValue comparand).desc = shared.desc := by
  unfold Shared.compareExchange64
  split <;> rfl

theorem storeStatus_desc_of_same (shared : Shared) (d : Nat) (status : Status)
    (same : (shared.desc d).status = status) : (shared.storeStatus d status).desc = shared.desc := by
  subst same
  exact Function.update_eq_self d shared.desc

/-- A finished descriptor is not touched by any call. -/
theorem stepMwCAS_desc_of_finished (build : Build) (pool : Pool) (shared : Shared)
    (d calldepth : Nat) (pc : Pc) {e : Nat} (finished : (shared.desc e).status = .of .finished)
    (loaded : Loaded shared.desc (.mwCAS d calldepth pc)) :
    (stepMwCAS build pool shared d calldepth pc).1.desc e = shared.desc e := by
  have exchanged : ∀ newStatus comparand : Status,
      ((shared.desc d).status = comparand → e = d → newStatus = comparand) →
      (shared.compareExchange32 d newStatus comparand).desc e = shared.desc e := by
    intro newStatus comparand unchanged
    unfold Shared.compareExchange32
    split
    next matching =>
      by_cases same : e = d
      · rw [storeStatus_desc_of_same]
        exact matching.trans (unchanged matching same).symm
      · exact Function.update_of_ne same _ _
    next => rfl
  have stored : ∀ status : Status, (e = d → (shared.desc d).status = status) →
      (shared.storeStatus d status).desc e = shared.desc e := by
    intro status unchanged
    by_cases same : e = d
    · rw [storeStatus_desc_of_same _ _ _ (unchanged same)]
    · exact Function.update_of_ne same _ _
  cases pc with
  | clearOldStatus old =>
    refine exchanged old.clearDirty old fun matching same => ?_
    rw [← matching, ← same, finished]
    rfl
  | decide myStatus =>
    refine exchanged _ (.of .undecided) fun matching same => ?_
    rw [← same, finished] at matching
    cases matching
  | storeClear old =>
    refine stored old.clearDirty fun same => ?_
    have current : old = (shared.desc d).status := loaded
    rw [current, ← same, finished]
    rfl
  | finalCAS index succeeded =>
    cases build with
    | persistent => exact congrFun (compareExchange64_desc _ _ _ _) e
    | volatile => exact congrFun (compareExchange64_desc _ _ _ _) e
  | installCondCAS index => exact congrFun (compareExchange64_desc _ _ _ _) e
  | casResolve index ret desired undecided => exact congrFun (compareExchange64_desc _ _ _ _) e
  | casOwn index undecided => exact congrFun (compareExchange64_desc _ _ _ _) e
  | clearConflict index rval => exact congrFun (compareExchange64_desc _ _ _ _) e
  | clearTarget index => exact congrFun (compareExchange64_desc _ _ _ _) e
  | finalRetry index succeeded => exact congrFun (compareExchange64_desc _ _ _ _) e
  | finalClear index succeeded => exact congrFun (compareExchange64_desc _ _ _ _) e
  | _ => rfl

/-- The program point stores no loaded status. -/
def Harmless (pc : Pc) : Prop := ∀ loaded, pc ≠ .storeClear loaded

theorem Harmless.waiting {pc : Pc} (harmless : Harmless pc) (d calldepth : Nat) :
    Waiting (.mwCAS d calldepth pc) := by
  cases pc with
  | storeClear loaded => exact absurd rfl (harmless loaded)
  | _ => trivial

theorem Waiting.loaded {frame : Frame} (waiting : Waiting frame) (desc : Nat → Descriptor) :
    Loaded desc frame := by
  cases frame with
  | mwCAS d calldepth pc =>
    cases pc with
    | storeClear loaded => exact absurd waiting id
    | _ => trivial
  | getValue address pc => exact absurd waiting id

theorem harmless_enterTarget (descriptor : Descriptor) (index : Nat) :
    Harmless (.enterTarget descriptor index) := by
  intro loaded
  unfold Pc.enterTarget
  split <;> exact fun absurdly => nomatch absurdly

theorem harmless_enterInstall (build : Build) (descriptor : Descriptor) (index : Nat) :
    Harmless (.enterInstall build descriptor index) := by
  intro loaded
  unfold Pc.enterInstall
  split
  · exact fun absurdly => nomatch absurdly
  · cases build with
    | persistent => exact harmless_enterTarget descriptor 0 loaded
    | volatile => exact fun absurdly => nomatch absurdly

theorem harmless_enterFinal (descriptor : Descriptor) (calldepth index : Nat) (succeeded : Bool) :
    Harmless (.enterFinal descriptor calldepth index succeeded) := by
  intro loaded
  unfold Pc.enterFinal
  split
  · exact fun absurdly => nomatch absurdly
  · split <;> exact fun absurdly => nomatch absurdly

theorem harmless_afterCondCAS (build : Build) (pool : Pool) (d : Nat) (descriptor : Descriptor)
    (index : Nat) (rval : Word) : Harmless (.afterCondCAS build pool d descriptor index rval) := by
  intro loaded
  unfold Pc.afterCondCAS
  split
  · exact harmless_enterInstall build descriptor (index + 1) loaded
  · split
    · split <;> exact fun absurdly => nomatch absurdly
    · exact fun absurdly => nomatch absurdly

theorem harmless_entry (build : Build) (calldepth : Nat) : Harmless (.entry build calldepth) := by
  intro loaded
  unfold Pc.entry
  cases build with
  | persistent =>
    dsimp only
    split <;> exact fun absurdly => nomatch absurdly
  | volatile => exact fun absurdly => nomatch absurdly

/-- Where a step of a call on `d` goes. -/
inductive Goes (desc : Nat → Descriptor) (d calldepth : Nat) : Move → Prop where
  | on {pc : Pc} (harmless : Harmless pc) : Goes desc d calldepth (.goto (.mwCAS d calldepth pc))
  | store : Goes desc d calldepth (.goto (.mwCAS d calldepth (.storeClear (desc d).status)))
  | help (i e : Nat) {pc : Pc} (harmless : Harmless pc) : Goes desc d calldepth
      (.call (.mwCAS d calldepth (.installCondCAS i)) (.mwCAS e (calldepth + 1) pc))
  | back : Goes desc d calldepth .done

theorem stepMwCAS_goes_on (build : Build) (pool : Pool) (shared : Shared) (d calldepth : Nat)
    (pc : Pc) : Goes (stepMwCAS build pool shared d calldepth pc).1.desc d calldepth
      (stepMwCAS build pool shared d calldepth pc).2 := by
  have installs : ∀ index, Harmless (.enterInstall build (shared.desc d) index) :=
    harmless_enterInstall build (shared.desc d)
  have finals : ∀ index succeeded, Harmless (.enterFinal (shared.desc d) calldepth index succeeded) :=
    harmless_enterFinal (shared.desc d) calldepth
  cases pc with
  | checkUndecided =>
    simp only [stepMwCAS]
    split <;> exact .on fun _ absurdly => nomatch absurdly
  | loadStatus =>
    simp only [stepMwCAS]
    cases build with
    | persistent =>
      dsimp only
      split
      · exact .on fun _ absurdly => nomatch absurdly
      · exact .on (installs 0)
    | volatile =>
      dsimp only
      split
      · exact .on (installs 0)
      · split <;> exact .on fun _ absurdly => nomatch absurdly
  | clearOldStatus old => exact .on (installs 0)
  | installCondCAS index =>
    simp only [stepMwCAS]
    split
    · exact .on fun _ absurdly => nomatch absurdly
    · split
      · exact .on fun _ absurdly => nomatch absurdly
      · exact .on (harmless_afterCondCAS build pool d (shared.desc d) index _)
  | loadDesired index ret =>
    simp only [stepMwCAS]
    split <;> exact .on fun _ absurdly => nomatch absurdly
  | recheckWord index ret desired =>
    simp only [stepMwCAS]
    split <;> exact .on fun _ absurdly => nomatch absurdly
  | casResolve index ret desired undecided =>
    simp only [stepMwCAS, compareExchange64_desc]
    split
    · exact .on (harmless_afterCondCAS build pool d (shared.desc d) index _)
    · exact .on fun _ absurdly => nomatch absurdly
  | casOwn index undecided =>
    exact .on (harmless_afterCondCAS build pool d (shared.desc d) index _)
  | help index rval => exact .help index _ (harmless_entry build (calldepth + 1))
  | loadTarget index =>
    simp only [stepMwCAS]
    split
    · exact .on fun _ absurdly => nomatch absurdly
    · exact .on (harmless_enterTarget (shared.desc d) (index + 1))
  | clearTarget index => exact .on (harmless_enterTarget (shared.desc d) (index + 1))
  | decide myStatus =>
    simp only [stepMwCAS]
    cases build <;> exact .on fun _ absurdly => nomatch absurdly
  | checkDecided =>
    simp only [stepMwCAS]
    split <;> exact .on fun _ absurdly => nomatch absurdly
  | loadForClear => exact .store
  | loadVerdict => exact .on (finals 0 _)
  | finalCAS index succeeded =>
    cases build with
    | persistent =>
      simp only [stepMwCAS]
      split <;> exact .on fun _ absurdly => nomatch absurdly
    | volatile => exact .on (finals (index + 1) succeeded)
  | finalClear index succeeded => exact .on (finals (index + 1) succeeded)
  | cleanupDirty =>
    simp only [stepMwCAS]
    split <;> exact .on fun _ absurdly => nomatch absurdly
  | cleanupFailed =>
    simp only [stepMwCAS]
    split <;> exact .on fun _ absurdly => nomatch absurdly
  | cleanupSucceeded =>
    simp only [stepMwCAS]
    split <;> exact .on fun _ absurdly => nomatch absurdly
  | ret succeeded => exact .back
  | _ => exact .on fun _ absurdly => nomatch absurdly

/-- A step of the top frame keeps the frames in order. -/
theorem FramesOk.step {build : Build} {pool : Pool} {shared : Shared} {held : List Nat}
    {d calldepth : Nat} {pc : Pc} {rest : List Frame}
    (frames : FramesOk shared.desc held (.mwCAS d calldepth pc :: rest)) :
    FramesOk (stepMwCAS build pool shared d calldepth pc).1.desc held
      ((stepMwCAS build pool shared d calldepth pc).2.stack rest) := by
  cases frames with
  | cons loaded waiting owned =>
    have goes := stepMwCAS_goes_on build pool shared d calldepth pc
    generalize stepMwCAS build pool shared d calldepth pc = result at goes
    have mine : ∀ later, ∀ e other, Frame.mwCAS e 0 other ∈ Frame.mwCAS d calldepth later :: rest →
        e ∈ held := by
      intro later e other member
      rcases List.mem_cons.1 member with same | below
      · cases same
        exact owned d pc List.mem_cons_self
      · exact owned e other (List.mem_cons_of_mem _ below)
    cases moved : result.2 with
    | goto frame =>
      rw [moved] at goes
      cases goes with
      | on harmless => exact .cons ((harmless.waiting d calldepth).loaded _) waiting (mine _)
      | store => exact .cons rfl waiting (mine _)
    | call caller callee =>
      rw [moved] at goes
      cases goes with
      | help i e harmless =>
        refine .cons ((harmless.waiting e (calldepth + 1)).loaded _) ?_ ?_
        · intro other member
          rcases List.mem_cons.1 member with same | below
          · rw [same]
            trivial
          · exact waiting other below
        · intro other next member
          rcases List.mem_cons.1 member with same | below
          · cases same
          · exact mine _ other next below
    | done =>
      cases rest with
      | nil => exact .nil
      | cons frame rest =>
        exact .cons ((waiting frame List.mem_cons_self).loaded _)
          (fun other member => waiting other (List.mem_cons_of_mem _ member))
          fun e other member => owned e other (List.mem_cons_of_mem _ member)

/-! ### Where the descriptors are -/

variable {config : Config}

/-- The slot holds descriptor `d`. -/
def State.InSlot (config : Config) (state : State) (slot d : Nat) : Prop :=
  ∃ removed, state.list.Holds slot removed ∧
    removed.item = config.layout.pool.descriptorAddress d

/-- Each descriptor of the partition is in one place, and those on the free list are initialized. -/
structure Placement (config : Config) (state : State) (free : List Nat) : Prop where
  chain : Chain state.nextPtr state.freeList free
  nodup : free.Nodup
  heldNodup : state.held.Nodup
  freeMembers : ∀ d ∈ free, config.Member d
  heldMembers : ∀ d ∈ state.held, config.Member d
  apart : ∀ d ∈ free, d ∉ state.held
  slots : ∀ slot removed, state.list.Holds slot removed → ∃ d, config.Member d ∧
    removed.item = config.layout.pool.descriptorAddress d ∧ d ∉ free ∧ d ∉ state.held
  single : ∀ slot other d, state.InSlot config slot d → state.InSlot config other d → slot = other
  cover : ∀ d, config.Member d → d ∈ free ∨ d ∈ state.held ∨
    ∃ slot, slot < config.list.itemCount ∧ state.InSlot config slot d
  fresh : ∀ d ∈ free, state.shared.desc d = .initialized

theorem descriptorAddress_injective (pool : Pool) {d e : Nat}
    (same : pool.descriptorAddress d = pool.descriptorAddress e) : d = e := by
  have first := pool.descriptorAt_descriptorAddress d
  rw [same, pool.descriptorAt_descriptorAddress] at first
  exact first.symm

/-- A descriptor in a slot is neither free nor held. -/
theorem Placement.not_mem_of_inSlot {state : State} {free : List Nat}
    (placed : Placement config state free) {slot d : Nat} (inSlot : state.InSlot config slot d) :
    d ∉ free ∧ d ∉ state.held := by
  obtain ⟨removed, holds, item⟩ := inSlot
  obtain ⟨e, -, other, notFree, notHeld⟩ := placed.slots slot removed holds
  have same := descriptorAddress_injective _ (item.symm.trans other)
  rw [same]
  exact ⟨notFree, notHeld⟩

theorem placement_start (config : Config) (mem : Nat → Word) :
    Placement config (.start config mem) config.firstFree := by
  have nothing : ∀ slot removed, ¬ (State.start config mem).list.Holds slot removed := by
    intro slot removed holds
    rcases holds.stamped with ⟨zero, nonzero, -⟩ | ⟨t, pending⟩
    · exact nonzero zero.symm
    · cases pending
  exact {
    chain := config.chain_firstFree
    nodup := config.nodup_firstFree
    heldNodup := List.nodup_nil
    freeMembers := fun d member => (config.mem_firstFree d).1 member
    heldMembers := fun d member => absurd member List.not_mem_nil
    apart := fun _ _ => List.not_mem_nil
    slots := fun slot removed holds => absurd holds (nothing slot removed)
    single := fun slot _ _ inSlot _ => absurd inSlot.choose_spec.1 (nothing slot _)
    cover := fun d member => .inl ((config.mem_firstFree d).2 member)
    fresh := fun _ _ => rfl }

section

variable {before after : State} {free : List Nat}

/-- A step that moves no descriptor. -/
theorem Placement.of_same (placed : Placement config before free)
    (links : after.nextPtr = before.nextPtr) (head : after.freeList = before.freeList)
    (held : after.held = before.held)
    (holds : ∀ slot removed, after.list.Holds slot removed ↔ before.list.Holds slot removed)
    (fresh : ∀ d ∈ free, after.shared.desc d = before.shared.desc d) :
    Placement config after free := by
  have inSlot : ∀ slot d, after.InSlot config slot d ↔ before.InSlot config slot d := by
    intro slot d
    unfold State.InSlot
    simp only [holds]
  refine ⟨?_, placed.nodup, ?_, placed.freeMembers, ?_, ?_, ?_, ?_, ?_, ?_⟩
  · rw [links, head]
    exact placed.chain
  · rw [held]
    exact placed.heldNodup
  · rw [held]
    exact placed.heldMembers
  · rw [held]
    exact placed.apart
  · intro slot removed there
    rw [held]
    exact placed.slots slot removed ((holds slot removed).1 there)
  · intro slot other d first second
    exact placed.single slot other d ((inSlot slot d).1 first) ((inSlot other d).1 second)
  · intro d member
    rw [held]
    simp only [inSlot]
    exact placed.cover d member
  · intro d member
    rw [fresh d member]
    exact placed.fresh d member

/-- `AllocateDescriptor` takes the first descriptor of the free list. -/
theorem Placement.allocate {d : Nat} (placed : Placement config before free)
    (head : before.freeList = some d) :
    ∃ rest, free = d :: rest ∧ Placement config
      { before with freeList := before.nextPtr d, held := d :: before.held, control := .idle }
      rest := by
  have chain := placed.chain
  rw [head] at chain
  obtain ⟨rest, rfl, links⟩ := chain.pop
  have mine : d ∈ d :: rest := List.mem_cons_self
  obtain ⟨fresh, nodup⟩ := List.nodup_cons.1 placed.nodup
  refine ⟨rest, rfl, links, nodup, ?_, ?_, ?_, ?_, ?_, placed.single, ?_, ?_⟩
  · exact List.nodup_cons.2 ⟨placed.apart d mine, placed.heldNodup⟩
  · exact fun e member => placed.freeMembers e (List.mem_cons_of_mem _ member)
  · intro e member
    rcases List.mem_cons.1 member with rfl | other
    · exact placed.freeMembers e mine
    · exact placed.heldMembers e other
  · intro e member taken
    rcases List.mem_cons.1 taken with rfl | other
    · exact fresh member
    · exact placed.apart e (List.mem_cons_of_mem _ member) other
  · intro slot removed holds
    obtain ⟨e, member, item, notFree, notHeld⟩ := placed.slots slot removed holds
    rw [List.mem_cons, not_or] at notFree
    exact ⟨e, member, item, notFree.2, fun taken =>
      (List.mem_cons.1 taken).elim notFree.1 notHeld⟩
  · intro e member
    rcases placed.cover e member with inFree | inHeld | inSlot
    · rcases List.mem_cons.1 inFree with rfl | other
      · exact .inr (.inl List.mem_cons_self)
      · exact .inl other
    · exact .inr (.inl (List.mem_cons_of_mem _ inHeld))
    · exact .inr (.inr inSlot)
  · exact fun e member => placed.fresh e (List.mem_cons_of_mem _ member)

/-- The push of a held descriptor returns: the descriptor is now in a slot. -/
theorem Placement.release {slot d : Nat} {item : GarbageList.Removed}
    (placed : Placement config before free) (inside : slot < config.list.itemCount)
    (mine : d ∈ before.held) (address : item.item = config.layout.pool.descriptorAddress d)
    (links : after.nextPtr = before.nextPtr) (head : after.freeList = before.freeList)
    (shared : after.shared = before.shared) (held : after.held = before.held.erase d)
    (holds : ∀ removed, after.list.Holds slot removed ↔ removed = item)
    (empty : ∀ removed, ¬ before.list.Holds slot removed)
    (others : ∀ other, other ≠ slot → ∀ removed,
      after.list.Holds other removed ↔ before.list.Holds other removed) :
    Placement config after free := by
  have inSlot : ∀ other e, after.InSlot config other e →
      other = slot ∧ e = d ∨ before.InSlot config other e := by
    rintro other e ⟨removed, there, same⟩
    by_cases here : other = slot
    · subst here
      rw [(holds removed).1 there] at same
      exact .inl ⟨rfl, descriptorAddress_injective _ (same.symm.trans address)⟩
    · exact .inr ⟨removed, (others other here removed).1 there, same⟩
  have notInSlot : ∀ other, ¬ before.InSlot config other d :=
    fun other there => (placed.not_mem_of_inSlot there).2 mine
  have notFree : d ∉ free := fun member => placed.apart d member mine
  refine ⟨?_, placed.nodup, ?_, placed.freeMembers, ?_, ?_, ?_, ?_, ?_, ?_⟩
  · rw [links, head]
    exact placed.chain
  · rw [held]
    exact placed.heldNodup.erase d
  · rw [held]
    exact fun e member => placed.heldMembers e (List.mem_of_mem_erase member)
  · rw [held]
    exact fun e member there => placed.apart e member (List.mem_of_mem_erase there)
  · intro other removed there
    rw [held]
    by_cases here : other = slot
    · subst here
      rw [(holds removed).1 there]
      exact ⟨d, placed.heldMembers d mine, address, notFree,
        fun still => (placed.heldNodup.mem_erase_iff.1 still).1 rfl⟩
    · obtain ⟨e, member, same, notFree, notHeld⟩ :=
        placed.slots other removed ((others other here removed).1 there)
      exact ⟨e, member, same, notFree, fun still => notHeld (List.mem_of_mem_erase still)⟩
  · intro first second e one two
    rcases inSlot first e one with ⟨rfl, rfl⟩ | before_
    · rcases inSlot second e two with ⟨rfl, -⟩ | before_
      · rfl
      · exact absurd before_ (notInSlot second)
    · rcases inSlot second e two with ⟨rfl, rfl⟩ | beforeToo
      · exact absurd before_ (notInSlot first)
      · exact placed.single first second e before_ beforeToo
  · intro e member
    rw [held]
    by_cases same : e = d
    · subst same
      exact .inr (.inr ⟨slot, inside, item, (holds item).2 rfl, address⟩)
    · rcases placed.cover e member with inFree | inHeld | ⟨other, bound, removed, there, at_⟩
      · exact .inl inFree
      · exact .inr (.inl (placed.heldNodup.mem_erase_iff.2 ⟨same, inHeld⟩))
      · have different : other ≠ slot := fun here => empty removed (here ▸ there)
        exact .inr (.inr ⟨other, bound, removed, (others other different removed).2 there, at_⟩)
  · rw [shared]
    exact placed.fresh

/-- `FreeDescriptor`: the descriptor of a slot is put on the free list. -/
theorem Placement.reclaim {slot d : Nat} {item : GarbageList.Removed}
    (placed : Placement config before free)
    (address : item.item = config.layout.pool.descriptorAddress d)
    (links : after.nextPtr = Function.update before.nextPtr d before.freeList)
    (head : after.freeList = some d)
    (desc : after.shared.desc = Function.update before.shared.desc d .initialized)
    (held : after.held = before.held)
    (holds : ∀ removed, before.list.Holds slot removed ↔ removed = item)
    (gone : ∀ removed, ¬ after.list.Holds slot removed)
    (others : ∀ other, other ≠ slot → ∀ removed,
      after.list.Holds other removed ↔ before.list.Holds other removed) :
    Placement config after (d :: free) := by
  have inSlot : before.InSlot config slot d := ⟨item, (holds item).2 rfl, address⟩
  obtain ⟨notFree, notHeld⟩ := placed.not_mem_of_inSlot inSlot
  obtain ⟨e, isMember, sameAddress, -, -⟩ := placed.slots slot item ((holds item).2 rfl)
  have same := descriptorAddress_injective _ (sameAddress.symm.trans address)
  subst same
  have only : ∀ other, before.InSlot config other e → other = slot :=
    fun other there => placed.single other slot e there inSlot
  have stays : ∀ other f, after.InSlot config other f →
      other ≠ slot ∧ before.InSlot config other f := by
    rintro other f ⟨removed, there, at_⟩
    have different : other ≠ slot := fun here => gone removed (here ▸ there)
    exact ⟨different, removed, (others other different removed).1 there, at_⟩
  refine ⟨?_, List.nodup_cons.2 ⟨notFree, placed.nodup⟩, ?_, ?_, ?_, ?_, ?_, ?_, ?_, ?_⟩
  · rw [links, head]
    exact placed.chain.push notFree
  · rw [held]
    exact placed.heldNodup
  · intro f member
    rcases List.mem_cons.1 member with rfl | other
    · exact isMember
    · exact placed.freeMembers f other
  · rw [held]
    exact placed.heldMembers
  · intro f member
    rw [held]
    rcases List.mem_cons.1 member with rfl | other
    · exact notHeld
    · exact placed.apart f other
  · intro other removed there
    have different : other ≠ slot := fun here => gone removed (here ▸ there)
    have holdsBefore := (others other different removed).1 there
    obtain ⟨f, member, at_, notFreeToo, notHeldToo⟩ := placed.slots other removed holdsBefore
    rw [held]
    refine ⟨f, member, at_, ?_, notHeldToo⟩
    rw [List.mem_cons, not_or]
    refine ⟨?_, notFreeToo⟩
    rintro rfl
    exact different (only other ⟨removed, holdsBefore, at_⟩)
  · intro first second f one two
    exact placed.single first second f (stays first f one).2 (stays second f two).2
  · intro f member
    rw [held]
    by_cases same : f = e
    · subst same
      exact .inl List.mem_cons_self
    · rcases placed.cover f member with inFree | inHeld | ⟨other, bound, removed, there, at_⟩
      · exact .inl (List.mem_cons_of_mem _ inFree)
      · exact .inr (.inl inHeld)
      · have different : other ≠ slot := by
          rintro rfl
          rw [(holds removed).1 there] at at_
          exact same (descriptorAddress_injective _ (at_.symm.trans address))
        exact .inr (.inr ⟨other, bound, removed, (others other different removed).2 there, at_⟩)
  · intro f member
    rw [desc]
    by_cases same : f = e
    · rw [same, Function.update_self]
    · rw [Function.update_of_ne same]
      rcases List.mem_cons.1 member with here | other
      · exact absurd here same
      · exact placed.fresh f other

end

/-! ### The invariant -/

/-- What the thread is doing fits the call of the garbage list it is in. -/
def Control.Fits (config : Config) (state : State) : Control → Prop
  | .scavenging => ∃ pc, state.list.calls config.owner = some (.scavenge, pc)
  | .running frames => state.list.calls config.owner = none ∧
    FramesOk state.shared.desc state.held frames
  | .pushing d => d ∈ state.held ∧ ∃ removed pc,
    state.list.calls config.owner = some (.push removed, pc) ∧
      removed.item = config.layout.pool.descriptorAddress d
  | _ => state.list.calls config.owner = none

/-- The invariant of a partition. -/
structure Invariant (config : Config) (state : State) : Prop where
  sound : GarbageList.Sound config.list state.list
  placed : ∃ free, Placement config state free
  control : state.control.Fits config state

theorem invariant_start (config : Config) (mem : Nat → Word) :
    Invariant config (.start config mem) where
  sound := (GarbageList.invariant_start config.list).sound
  placed := ⟨config.firstFree, placement_start config mem⟩
  control := rfl

section

variable {before after : State}

/-- A step of the garbage list that moves no item. -/
theorem Invariant.quiet {list : GarbageList.State} {control : Control}
    (invariant : Invariant config before) (sound : GarbageList.Sound config.list list)
    (change : GarbageList.Change config.list before.list list)
    (returned : list.returned = before.list.returned) (passed : list.passed = before.list.passed)
    (fits : control.Fits config { before with list := list, control := control }) :
    Invariant config { before with list := list, control := control } := by
  obtain ⟨free, placed⟩ := invariant.placed
  refine ⟨sound, ⟨free, ?_⟩, fits⟩
  cases change with
  | same holds => exact placed.of_same rfl rfl rfl holds fun _ _ => rfl
  | passes slot item inside held gone others returned' grown =>
    rw [passed] at grown
    exact absurd grown (by simp)
  | returns slot item inside empty holds others grown =>
    rw [returned] at grown
    exact absurd grown (by simp)

/-- A step that changes no list and no descriptor on the free list. -/
theorem Invariant.work {shared : Shared} {control : Control}
    (invariant : Invariant config before)
    (kept : ∀ d, d ∉ before.held → (before.shared.desc d).status = .of .finished →
      shared.desc d = before.shared.desc d)
    (fits : control.Fits config { before with shared := shared, control := control }) :
    Invariant config { before with shared := shared, control := control } := by
  obtain ⟨free, placed⟩ := invariant.placed
  refine ⟨invariant.sound, ⟨free, placed.of_same rfl rfl rfl (fun _ _ => Iff.rfl) ?_⟩, fits⟩
  intro d member
  refine kept d (placed.apart d member) ?_
  rw [placed.fresh d member]
  rfl

/-- What a step of the garbage list by the thread does. -/
theorem Invariant.stepList (invariant : Invariant config before)
    {call : GarbageList.Call} {pc : GarbageList.Pc}
    (here : before.list.calls config.owner = some (call, pc))
    (performed : before.stepList config = some after) :
    GarbageList.Sound config.list after.list ∧ after.held = before.held ∧
      after.control = before.control ∧ call.Continues before.list after.list config.owner ∧
      (call = .scavenge ∨ (∃ next, after.list.calls config.owner = some (call, next)) →
        ∃ free, Placement config after free) ∧
      ∀ removed d, call = .push removed → after.list.calls config.owner = none →
        removed.item = config.layout.pool.descriptorAddress d → d ∈ before.held →
        ∃ free, Placement config { after with held := after.held.erase d, control := .idle } free := by
  obtain ⟨list, moved, rfl⟩ := Option.map_eq_some_iff.1 performed
  simp only [GarbageList.State.next, here] at moved
  obtain ⟨sound, change⟩ := invariant.sound.stepCall here moved
  obtain ⟨-, logged, -⟩ := GarbageList.State.stepCall_accepted moved
  have continues := GarbageList.State.stepCall_continues moved
  obtain ⟨free, placed⟩ := invariant.placed
  have grown : ∀ removed, list.returned = before.list.returned ++ [removed] →
      call = .push removed ∧ list.calls config.owner = none := by
    intro removed same
    rcases continues with ⟨-, kept⟩ | ⟨done, ⟨-, kept⟩ | ⟨other, isPush, more⟩⟩
    · rw [kept] at same
      exact absurd same (by simp)
    · rw [kept] at same
      exact absurd same (by simp)
    · rw [more] at same
      have equal := List.append_cancel_left same
      cases equal
      exact ⟨isPush, done⟩
  have unreturned : list.returned = before.list.returned →
      call = .scavenge ∨ ∃ next, list.calls config.owner = some (call, next) := by
    intro same
    rcases continues with ⟨stays, -⟩ | ⟨-, ⟨isScavenge, -⟩ | ⟨other, -, more⟩⟩
    · exact .inr stays
    · exact .inl isScavenge
    · rw [same] at more
      exact absurd more (by simp)
  have notDone : ∀ removed, call = .push removed → list.returned = before.list.returned →
      list.calls config.owner ≠ none := by
    intro removed isPush same
    rcases unreturned same with isScavenge | ⟨next, stays⟩
    · rw [isPush] at isScavenge
      cases isScavenge
    · rw [stays]
      exact Option.some_ne_none _
  -- the callback is called exactly when the log of the garbage list grows
  have logGrows : ∀ {slot epoch callback context item},
      pc = .destroy slot epoch callback context item →
      list.passed = before.list.passed ++ [⟨item, callback, context, epoch⟩] := by
    rintro slot epoch callback context item rfl
    cases moved
    rfl
  have undestroyed : list.passed = before.list.passed → before.destroyed config = none := by
    intro same
    unfold State.destroyed
    rw [here]
    cases pc with
    | destroy slot epoch callback context item =>
      rw [logGrows rfl] at same
      exact absurd same (by simp)
    | _ => rfl
  cases change with
  | same holds returned passed =>
    rw [undestroyed passed]
    refine ⟨sound, rfl, rfl, continues, fun _ => ⟨free, ?_⟩, ?_⟩
    · exact placed.of_same rfl rfl rfl holds fun _ _ => rfl
    · intro removed d isPush done
      exact absurd done (notDone removed isPush returned)
  | returns slot item inside empty holds others returned passed =>
    rw [undestroyed passed]
    obtain ⟨isPush, done⟩ := grown item returned
    refine ⟨sound, rfl, rfl, continues, ?_, ?_⟩
    · rintro (isScavenge | ⟨next, stays⟩)
      · rw [isPush] at isScavenge
        cases isScavenge
      · rw [show list.calls config.owner = some (call, next) from stays] at done
        cases done
    · intro removed d isPush' _ address mine
      rw [isPush] at isPush'
      cases isPush'
      exact ⟨free, placed.release inside mine address rfl rfl rfl rfl holds empty others⟩
  | passes slot item inside held gone others returned passed =>
    rcases logged with same | ⟨at_, epoch, callback, context, address, rfl, log⟩
    · rw [same] at passed
      exact absurd passed (by simp)
    · rw [log] at passed
      have equal := List.append_cancel_left passed
      cases equal
      obtain ⟨d, -, same, -, -⟩ := placed.slots slot _ ((held _).2 rfl)
      have sameAddress : address = config.layout.pool.descriptorAddress d := same
      have which : before.destroyed config = some d := by
        unfold State.destroyed
        rw [here, sameAddress]
        simp only [Pool.descriptorAt_descriptorAddress]
      rw [which]
      refine ⟨sound, rfl, rfl, continues, fun _ => ⟨d :: free, ?_⟩, ?_⟩
      · exact placed.reclaim same rfl rfl rfl rfl held gone others
      · intro removed e isPush done
        exact absurd done (notDone removed isPush returned)

/-- A step of the epoch manager. -/
theorem Invariant.stepEpochs {action : EpochManager.Action} {list : GarbageList.State}
    {control : Control} (invariant : Invariant config before)
    (performed : before.list.stepEpochs config.list action = some list)
    (fits : control.Fits config { before with list := list, control := control }) :
    Invariant config { before with list := list, control := control } := by
  have keeps := invariant.sound.stepEpochs performed
  obtain ⟨epochs, rfl⟩ := GarbageList.State.eq_of_stepEpochs performed
  exact invariant.quiet keeps.sound keeps.change rfl rfl fits

/-- The thread calls `Push` for a descriptor it has. -/
theorem Invariant.push {d : Nat} (invariant : Invariant config before) (mine : d ∈ before.held)
    (performed : before.push config d = some after) : Invariant config after := by
  obtain ⟨list, moved, rfl⟩ := Option.map_eq_some_iff.1 performed
  have keeps := invariant.sound.next moved
  simp only [GarbageList.State.next, Option.ite_none_right_eq_some, Option.some.injEq] at moved
  obtain ⟨-, rfl⟩ := moved
  refine invariant.quiet keeps.sound keeps.change rfl rfl ⟨mine, ?_⟩
  exact ⟨_, _, GarbageList.State.calls_setCall_self _ _ _, rfl⟩

/-- The thread calls `Scavenge`. -/
theorem Invariant.scavenge {list : GarbageList.State} (invariant : Invariant config before)
    (performed : before.list.next config.list (.scavenge config.owner) = some list) :
    Invariant config { before with list := list, control := .scavenging } := by
  have keeps := invariant.sound.next performed
  simp only [GarbageList.State.next, Option.ite_none_right_eq_some, Option.some.injEq] at performed
  obtain ⟨-, rfl⟩ := performed
  refine invariant.quiet keeps.sound keeps.change rfl rfl ⟨.loadEpoch 0, ?_⟩
  rw [GarbageList.State.calls_setCall_self, GarbageList.Call.scavengeFrom,
    if_pos config.list.itemCount_pos]

/-- The status of a held descriptor is stored. -/
theorem Invariant.leaveFinished {d : Nat} {code : StatusCode} {begun : State}
    (mine : d ∈ before.held)
    (performed : before.leaveFinished d code = some begun) :
    begun = { before with shared := before.shared.storeStatus d (.of code) } ∧
      ∀ e, e ∉ before.held → begun.shared.desc e = before.shared.desc e := by
  unfold State.leaveFinished at performed
  split at performed
  next =>
    cases performed
    refine ⟨rfl, fun e notMine => ?_⟩
    exact Function.update_of_ne (fun same : e = d => notMine (same ▸ mine)) _ _
  next => cases performed

/-- Every step of the thread inside a call keeps the invariant. -/
theorem Invariant.stepControl (invariant : Invariant config before)
    (performed : before.stepControl config = some after) : Invariant config after := by
  have fits := invariant.control
  unfold State.stepControl at performed
  split at performed
  case h_1 => cases performed
  case h_2 control =>
    rw [control] at fits
    split at performed
    next d head =>
      cases performed
      obtain ⟨free, placed⟩ := invariant.placed
      obtain ⟨rest, -, taken⟩ := placed.allocate head
      exact ⟨invariant.sound, ⟨rest, taken⟩, fits⟩
    next =>
      obtain ⟨list, moved, rfl⟩ := Option.map_eq_some_iff.1 performed
      refine invariant.stepEpochs moved ?_
      exact (congrFun (GarbageList.State.calls_of_stepEpochs moved) _).trans fits
  case h_3 control =>
    rw [control] at fits
    obtain ⟨list, moved, rfl⟩ := Option.map_eq_some_iff.1 performed
    have calls : list.calls config.owner = none :=
      (congrFun (GarbageList.State.calls_of_stepEpochs moved) _).trans fits
    refine invariant.stepEpochs moved ?_
    split <;> exact calls
  case h_4 control =>
    obtain ⟨list, moved, rfl⟩ := Option.map_eq_some_iff.1 performed
    exact invariant.scavenge moved
  case h_5 control =>
    rw [control] at fits
    obtain ⟨pc, here⟩ := fits
    obtain ⟨middle, moved, rfl⟩ := Option.map_eq_some_iff.1 performed
    obtain ⟨sound, held, -, continues, placed, -⟩ := invariant.stepList here moved
    obtain ⟨free, placed⟩ := placed (.inl rfl)
    refine ⟨sound, ⟨free, placed.of_same rfl rfl rfl (fun _ _ => Iff.rfl) fun _ _ => rfl⟩, ?_⟩
    dsimp only
    split
    next done => exact done
    next running =>
      rcases continues with ⟨stays, -⟩ | ⟨done, -⟩
      · exact stays
      · exact absurd done running
  case h_6 control =>
    cases performed
    rw [control] at fits
    exact invariant.work (fun _ _ _ => rfl) fits.1
  case h_7 d rest control =>
    rw [control] at fits
    cases fits.2 with
    | cons _ _ owned => exact invariant.push (owned d .cleanupPush List.mem_cons_self) performed
  case h_8 frame rest notPush control =>
    cases performed
    rw [control] at fits
    obtain ⟨calls, frames⟩ := fits
    cases frame with
    | mwCAS d calldepth pc =>
      have loaded : Loaded before.shared.desc (.mwCAS d calldepth pc) := by
        cases frames with
        | cons loaded => exact loaded
      refine invariant.work (fun e _ finished => ?_) ⟨calls, frames.step⟩
      exact stepMwCAS_desc_of_finished config.build config.layout.pool before.shared d calldepth pc
        finished loaded
    | getValue address pc =>
      cases frames with
      | cons loaded => exact absurd loaded id
  case h_9 d control =>
    rw [control] at fits
    obtain ⟨mine, removed, pc, here, address⟩ := fits
    obtain ⟨middle, moved, rfl⟩ := Option.map_eq_some_iff.1 performed
    obtain ⟨sound, held, sameControl, continues, stays, released⟩ := invariant.stepList here moved
    split
    next done =>
      obtain ⟨free, placed⟩ := released removed d rfl done address mine
      exact ⟨sound, ⟨free, placed⟩, done⟩
    next running =>
      rcases continues with ⟨⟨next, later⟩, -⟩ | ⟨done, -⟩
      · refine ⟨sound, stays (.inr ⟨next, later⟩), ?_⟩
        rw [sameControl, control]
        exact ⟨held ▸ mine, removed, next, later, address⟩
      · exact absurd done running
  case h_10 => cases performed

/-- Every action keeps the invariant. -/
theorem Invariant.next {action : Action} (invariant : Invariant config before)
    (performed : before.next config action = some after) : Invariant config after := by
  have idleFits : before.control = .idle → before.list.calls config.owner = none := by
    intro idle
    have fits := invariant.control
    rw [idle] at fits
    exact fits
  cases action with
  | allocateDescriptor =>
    simp only [State.next, Option.ite_none_right_eq_some, Option.some.injEq] at performed
    obtain ⟨idle, rfl⟩ := performed
    exact invariant.work (fun _ _ _ => rfl) (idleFits idle)
  | addEntry d request =>
    simp only [State.next, Option.ite_none_right_eq_some] at performed
    obtain ⟨⟨idle, mine⟩, performed⟩ := performed
    split at performed
    next filled _ =>
      cases performed
      refine invariant.work (fun e notMine _ => ?_) ?_
      · exact Function.update_of_ne (fun same : e = d => notMine (same ▸ mine)) _ _
      · rw [idle]
        exact idleFits idle
    next check _ =>
      cases performed
      exact invariant.work (fun _ _ _ => rfl) (idleFits idle)
  | mwCAS d =>
    simp only [State.next, Option.ite_none_right_eq_some] at performed
    obtain ⟨⟨idle, mine⟩, performed⟩ := performed
    split at performed
    next begun stored =>
      cases performed
      obtain ⟨rfl, kept⟩ := Invariant.leaveFinished mine stored
      refine invariant.work (fun e notMine _ => kept e notMine) ⟨idleFits idle, ?_⟩
      refine .cons (((harmless_entry config.build 0).waiting d 0).loaded _)
        (fun _ absurdly => nomatch absurdly) fun e pc member => ?_
      cases List.mem_singleton.1 member
      exact mine
    next =>
      cases performed
      exact invariant.work (fun _ _ _ => rfl) (idleFits idle)
  | abort d =>
    simp only [State.next, Option.ite_none_right_eq_some] at performed
    obtain ⟨⟨idle, mine⟩, performed⟩ := performed
    split at performed
    next begun stored =>
      obtain ⟨rfl, kept⟩ := Invariant.leaveFinished mine stored
      have marked : Invariant config
          { before with shared := before.shared.storeStatus d (.of .failed), control := .idle } :=
        invariant.work (fun e notMine _ => kept e notMine) (idleFits idle)
      rw [← idle] at marked
      exact marked.push mine performed
    next =>
      cases performed
      exact invariant.work (fun _ _ _ => rfl) (idleFits idle)
  | step => exact invariant.stepControl performed
  | epoch action =>
    simp only [State.next, Option.ite_none_right_eq_some] at performed
    obtain ⟨-, performed⟩ := performed
    obtain ⟨list, moved, rfl⟩ := Option.map_eq_some_iff.1 performed
    simp only [GarbageList.State.next, Option.ite_none_right_eq_some] at moved
    have calls := GarbageList.State.calls_of_stepEpochs moved.2
    refine invariant.stepEpochs moved.2 ?_
    have fits := invariant.control
    unfold Control.Fits at fits ⊢
    rw [calls]
    exact fits

end

/-- The invariant holds in every state of every run. -/
theorem Invariant.of_run (run : Run (system config)) (index : Nat) (inside : index ≤ run.length) :
    Invariant config (run.state index) := by
  refine run.invariant run.meets_true ?_ ?_ index inside
  · rintro state ⟨mem, rfl⟩
    exact invariant_start config mem
  · intro before action after invariant _ performed
    exact invariant.next performed

/-! ### How a descriptor comes back to the free list -/

theorem Chain.unique {nextPtr : Nat → Option Nat} {head : Option Nat} {first second : List Nat}
    (one : Chain nextPtr head first) (two : Chain nextPtr head second) : first = second := by
  induction first generalizing head second with
  | nil =>
    cases head with
    | none =>
      cases second with
      | nil => rfl
      | cons => exact absurd two id
    | some d => exact absurd one id
  | cons d rest inductionHypothesis =>
    cases head with
    | none => exact absurd one id
    | some e =>
      obtain ⟨rfl, one⟩ := one
      obtain ⟨others, rfl, tail⟩ := two.pop
      rw [inductionHypothesis one tail]

/-- The descriptor is on the free list. -/
def State.OnFreeList (config : Config) (state : State) (d : Nat) : Prop :=
  ∃ free, Placement config state free ∧ d ∈ free

section

variable {before after : State}

/-- What a step does to the free list. -/
inductive FreeListChange (config : Config) (before after : State) : Prop where
  | same (links : after.nextPtr = before.nextPtr) (head : after.freeList = before.freeList)
  | pop {d : Nat} (first : before.freeList = some d) (links : after.nextPtr = before.nextPtr)
      (head : after.freeList = before.nextPtr d)
  | push {d : Nat} (freed : before.destroyed config = some d)
      (links : after.nextPtr = Function.update before.nextPtr d before.freeList)
      (head : after.freeList = some d)

theorem State.freeListChange_of_stepList (performed : before.stepList config = some after) :
    FreeListChange config before after := by
  obtain ⟨list, -, rfl⟩ := Option.map_eq_some_iff.1 performed
  split
  next d freed => exact .push freed rfl rfl
  next => exact .same rfl rfl

theorem State.freeListChange_of_push {d : Nat} (performed : before.push config d = some after) :
    after.nextPtr = before.nextPtr ∧ after.freeList = before.freeList := by
  obtain ⟨list, -, rfl⟩ := Option.map_eq_some_iff.1 performed
  exact ⟨rfl, rfl⟩

theorem State.freeListChange_of_next {action : Action}
    (performed : before.next config action = some after) : FreeListChange config before after := by
  cases action with
  | allocateDescriptor =>
    simp only [State.next, Option.ite_none_right_eq_some, Option.some.injEq] at performed
    obtain ⟨-, rfl⟩ := performed
    exact .same rfl rfl
  | addEntry d request =>
    simp only [State.next, Option.ite_none_right_eq_some] at performed
    obtain ⟨-, performed⟩ := performed
    split at performed
    all_goals
      cases performed
      exact .same rfl rfl
  | mwCAS d =>
    simp only [State.next, Option.ite_none_right_eq_some] at performed
    obtain ⟨⟨-, mine⟩, performed⟩ := performed
    split at performed
    next begun stored =>
      cases performed
      obtain ⟨rfl, -⟩ := Invariant.leaveFinished mine stored
      exact .same rfl rfl
    next =>
      cases performed
      exact .same rfl rfl
  | abort d =>
    simp only [State.next, Option.ite_none_right_eq_some] at performed
    obtain ⟨⟨-, mine⟩, performed⟩ := performed
    split at performed
    next begun stored =>
      obtain ⟨rfl, -⟩ := Invariant.leaveFinished mine stored
      obtain ⟨links, head⟩ := State.freeListChange_of_push performed
      exact .same links head
    next =>
      cases performed
      exact .same rfl rfl
  | epoch action =>
    simp only [State.next, Option.ite_none_right_eq_some] at performed
    obtain ⟨list, -, rfl⟩ := Option.map_eq_some_iff.1 performed.2
    exact .same rfl rfl
  | step =>
    simp only [State.next] at performed
    unfold State.stepControl at performed
    split at performed
    case h_1 => cases performed
    case h_2 =>
      split at performed
      next d head =>
        cases performed
        exact .pop head rfl rfl
      next =>
        obtain ⟨list, -, rfl⟩ := Option.map_eq_some_iff.1 performed
        exact .same rfl rfl
    case h_3 =>
      obtain ⟨list, -, rfl⟩ := Option.map_eq_some_iff.1 performed
      exact .same rfl rfl
    case h_4 =>
      obtain ⟨list, -, rfl⟩ := Option.map_eq_some_iff.1 performed
      exact .same rfl rfl
    case h_5 =>
      obtain ⟨middle, moved, rfl⟩ := Option.map_eq_some_iff.1 performed
      cases State.freeListChange_of_stepList moved with
      | same links head => exact .same links head
      | pop first links head => exact .pop first links head
      | push freed links head => exact .push freed links head
    case h_6 =>
      cases performed
      exact .same rfl rfl
    case h_7 =>
      obtain ⟨links, head⟩ := State.freeListChange_of_push performed
      exact .same links head
    case h_8 =>
      cases performed
      exact .same rfl rfl
    case h_9 =>
      obtain ⟨middle, moved, rfl⟩ := Option.map_eq_some_iff.1 performed
      split
      all_goals
        cases State.freeListChange_of_stepList moved with
        | same links head => exact .same links head
        | pop first links head => exact .pop first links head
        | push freed links head => exact .push freed links head
    case h_10 => cases performed

/-- A descriptor that comes to the free list was in a slot, and its epoch had been accepted. -/
theorem Invariant.freed {action : Action} {d : Nat} (invariant : Invariant config before)
    (performed : before.next config action = some after)
    (notYet : ¬ before.OnFreeList config d) (now : after.OnFreeList config d) :
    ∃ slot removed, before.list.Holds slot removed ∧
      removed.item = config.layout.pool.descriptorAddress d ∧
      before.list.acceptedOf config.owner = some (slot, removed.epoch) := by
  obtain ⟨free, placed⟩ := invariant.placed
  obtain ⟨later, placedLater, member⟩ := now
  have absent : d ∉ free := fun there => notYet ⟨free, placed, there⟩
  have chain := placedLater.chain
  cases State.freeListChange_of_next performed with
  | same links head =>
    rw [links, head] at chain
    exact absurd (placed.chain.unique chain ▸ member) absent
  | pop first links head =>
    rw [links, head] at chain
    have whole := placed.chain
    rw [first] at whole
    obtain ⟨rest, rfl, tail⟩ := whole.pop
    rw [← tail.unique chain] at member
    exact absurd (List.mem_cons_of_mem _ member) absent
  | @push e freed links head =>
    unfold State.destroyed at freed
    split at freed
    next call slot epoch callback context item here =>
      have inCall := invariant.sound.inCall here
      have holds : before.list.Holds slot ⟨item, callback, context, epoch⟩ :=
        ⟨inCall.fits.2, .inr ⟨config.owner, inCall.pendingOf⟩⟩
      obtain ⟨f, -, address, notFree, -⟩ := placed.slots slot _ holds
      have same : f = e := by
        rw [show item = _ from address, Pool.descriptorAt_descriptorAddress] at freed
        exact Option.some.inj freed
      subst same
      rw [links, head] at chain
      rw [← (placed.chain.push notFree).unique chain] at member
      rcases List.mem_cons.1 member with rfl | there
      · refine ⟨slot, _, holds, address, ?_⟩
        rw [GarbageList.State.acceptedOf, here]
        rfl
      · exact absurd there absent
    next => cases freed

/-- A step of the system is no step of the garbage list, or one of its steps. -/
theorem Invariant.listStep {action : Action} (invariant : Invariant config before)
    (performed : before.next config action = some after) :
    after.list = before.list ∨
      ∃ listAction, before.list.next config.list listAction = some after.list := by
  have stepped : ∀ {middle : State}, before.stepList config = some middle →
      ∃ listAction, before.list.next config.list listAction = some middle.list := by
    intro middle moved
    obtain ⟨list, there, rfl⟩ := Option.map_eq_some_iff.1 moved
    refine ⟨_, there.trans ?_⟩
    split <;> rfl
  have epochs : ∀ {list : GarbageList.State} (action : EpochManager.Action),
      before.list.stepEpochs config.list action = some list →
      before.list.calls action.thread = none →
      ∃ listAction, before.list.next config.list listAction = some list := by
    intro list action moved outside
    refine ⟨.epoch action, ?_⟩
    simp only [GarbageList.State.next, if_pos outside, moved]
  have fits := invariant.control
  cases action with
  | allocateDescriptor =>
    simp only [State.next, Option.ite_none_right_eq_some, Option.some.injEq] at performed
    obtain ⟨-, rfl⟩ := performed
    exact .inl rfl
  | addEntry d request =>
    simp only [State.next, Option.ite_none_right_eq_some] at performed
    obtain ⟨-, performed⟩ := performed
    split at performed
    all_goals
      cases performed
      exact .inl rfl
  | mwCAS d =>
    simp only [State.next, Option.ite_none_right_eq_some] at performed
    obtain ⟨⟨-, mine⟩, performed⟩ := performed
    split at performed
    next begun stored =>
      cases performed
      obtain ⟨rfl, -⟩ := Invariant.leaveFinished mine stored
      exact .inl rfl
    next =>
      cases performed
      exact .inl rfl
  | abort d =>
    simp only [State.next, Option.ite_none_right_eq_some] at performed
    obtain ⟨⟨-, mine⟩, performed⟩ := performed
    split at performed
    next begun stored =>
      obtain ⟨rfl, -⟩ := Invariant.leaveFinished mine stored
      obtain ⟨list, moved, rfl⟩ := Option.map_eq_some_iff.1 performed
      exact .inr ⟨_, moved⟩
    next =>
      cases performed
      exact .inl rfl
  | epoch action =>
    simp only [State.next, Option.ite_none_right_eq_some] at performed
    obtain ⟨list, moved, rfl⟩ := Option.map_eq_some_iff.1 performed.2
    exact .inr ⟨_, moved⟩
  | step =>
    simp only [State.next] at performed
    unfold State.stepControl at performed
    split at performed
    case h_1 => cases performed
    case h_2 control =>
      rw [control] at fits
      split at performed
      next =>
        cases performed
        exact .inl rfl
      next =>
        obtain ⟨list, moved, rfl⟩ := Option.map_eq_some_iff.1 performed
        exact .inr (epochs _ moved fits)
    case h_3 control =>
      rw [control] at fits
      obtain ⟨list, moved, rfl⟩ := Option.map_eq_some_iff.1 performed
      exact .inr (epochs _ moved fits)
    case h_4 =>
      obtain ⟨list, moved, rfl⟩ := Option.map_eq_some_iff.1 performed
      exact .inr ⟨_, moved⟩
    case h_5 =>
      obtain ⟨middle, moved, rfl⟩ := Option.map_eq_some_iff.1 performed
      have list := stepped moved
      exact .inr list
    case h_6 =>
      cases performed
      exact .inl rfl
    case h_7 =>
      obtain ⟨list, moved, rfl⟩ := Option.map_eq_some_iff.1 performed
      exact .inr ⟨_, moved⟩
    case h_8 =>
      cases performed
      exact .inl rfl
    case h_9 =>
      obtain ⟨middle, moved, rfl⟩ := Option.map_eq_some_iff.1 performed
      have list := stepped moved
      split
      · exact .inr list
      · exact .inr list
    case h_10 => cases performed

end

/-! ### Conservation -/

/-- The step at `index` is the one with which `AllocateDescriptor` takes descriptor `d`. -/
def Allocates (run : Run (system config)) (d index : Nat) : Prop :=
  run.action index = .step ∧ (run.state index).control = .allocating ∧
    (run.state index).freeList = some d

/-- The step at `index` is the one with which the push of the removed item returns. -/
def Releases (run : Run (system config)) (removed : GarbageList.Removed) (index : Nat) : Prop :=
  (run.state (index + 1)).list.returned = (run.state index).list.returned ++ [removed]

/-- In the state at `index` the thread asks whether the epoch of the item in the slot is safe to
reclaim, and it is. -/
def Accepts (run : Run (system config)) (slot epoch index : Nat) : Prop :=
  (∃ call, (run.state index).list.calls config.owner = some (call, .checkSafe slot epoch)) ∧
    (run.state index).list.epochs.isSafeToReclaim epoch = true

/-- The descriptor is in exactly one of the three places, and there once. -/
def State.InOnePlace (config : Config) (state : State) (free : List Nat) (d : Nat) : Prop :=
  (d ∈ free ∧ d ∉ state.held ∧ ∀ slot, ¬ state.InSlot config slot d) ∨
    (d ∉ free ∧ state.held.count d = 1 ∧ ∀ slot, ¬ state.InSlot config slot d) ∨
    (d ∉ free ∧ d ∉ state.held ∧
      ∃! slot, slot < config.list.itemCount ∧ state.InSlot config slot d)

theorem Placement.inOnePlace {state : State} {free : List Nat}
    (placed : Placement config state free) {d : Nat} (member : config.Member d) :
    state.InOnePlace config free d := by
  rcases placed.cover d member with inFree | inHeld | ⟨slot, inside, inSlot⟩
  · exact .inl ⟨inFree, placed.apart d inFree,
      fun slot inSlot => (placed.not_mem_of_inSlot inSlot).1 inFree⟩
  · exact .inr (.inl ⟨fun inFree => placed.apart d inFree inHeld,
      List.count_eq_one_of_mem placed.heldNodup inHeld,
      fun slot inSlot => (placed.not_mem_of_inSlot inSlot).2 inHeld⟩)
  · obtain ⟨notFree, notHeld⟩ := placed.not_mem_of_inSlot inSlot
    exact .inr (.inr ⟨notFree, notHeld, slot, ⟨inside, inSlot⟩,
      fun other there => placed.single other slot d there.2 inSlot⟩)

/-- The guarantee of a partition over a run. -/
structure Conserves (run : Run (system config)) : Prop where
  /-- The free list is finite and without repetition, and each descriptor is in one place. -/
  placed : ∀ index, index ≤ run.length → ∃ free,
    Chain (run.state index).nextPtr (run.state index).freeList free ∧ free.Nodup ∧
      (∀ d ∈ free, config.Member d) ∧
      ∀ d, config.Member d → (run.state index).InOnePlace config free d
  /-- An allocated descriptor is initialized. -/
  initialized : ∀ index, index < run.length → ∀ d, Allocates run d index →
    config.Member d ∧ d ∈ (run.state (index + 1)).held ∧
      ((run.state (index + 1)).shared.desc d).status = .of .finished ∧
      ((run.state (index + 1)).shared.desc d).count = 0 ∧
      ∀ w, ((run.state (index + 1)).shared.desc d).words w = .zero
  /-- An allocated descriptor is new, or the epoch it was removed in has been accepted since its
  last use. -/
  reclaimed : ∀ index, index < run.length → ∀ d, Allocates run d index →
    (∀ earlier, earlier < index → ¬ Allocates run d earlier) ∨
      ∃ removed slot release accept, release < accept ∧ accept < index ∧
        removed.item = config.layout.pool.descriptorAddress d ∧ Releases run removed release ∧
        Accepts run slot removed.epoch accept ∧
        ∀ between, release ≤ between → between < index → ¬ Allocates run d between

section

variable {run : Run (system config)} {d index : Nat}

theorem Allocates.step (allocates : Allocates run d index) (inside : index < run.length) :
    run.state (index + 1) = { run.state index with
      freeList := (run.state index).nextPtr d
      held := d :: (run.state index).held
      control := .idle } := by
  obtain ⟨action, control, head⟩ := allocates
  have performed : (run.state index).next config (run.action index) = some _ :=
    run.steps index inside
  rw [action, State.next, State.stepControl, control] at performed
  simp only [head, Option.some.injEq] at performed
  exact performed.symm

theorem Allocates.onFreeList (allocates : Allocates run d index) (inside : index ≤ run.length) :
    (run.state index).OnFreeList config d := by
  obtain ⟨free, placed⟩ := (Invariant.of_run run index inside).placed
  have chain := placed.chain
  rw [allocates.2.2] at chain
  obtain ⟨rest, rfl, -⟩ := chain.pop
  exact ⟨_, placed, List.mem_cons_self⟩

theorem Allocates.initialized (allocates : Allocates run d index) (inside : index < run.length) :
    config.Member d ∧ (run.state (index + 1)).shared.desc d = .initialized := by
  obtain ⟨free, placed, member⟩ := allocates.onFreeList (Nat.le_of_lt inside)
  rw [allocates.step inside]
  exact ⟨placed.freeMembers d member, placed.fresh d member⟩

/-- A slot comes to hold an item in the step in which its push returns. -/
theorem releases_of_change {slot : Nat} {removed : GarbageList.Removed}
    (inside : index < run.length)
    (notYet : ¬ (run.state index).list.Holds slot removed)
    (now : (run.state (index + 1)).list.Holds slot removed) :
    Releases run removed index ∧ (run.state (index + 1)).list.acceptedOf config.owner = none := by
  have invariant := Invariant.of_run run index (Nat.le_of_lt inside)
  have performed : (run.state index).next config (run.action index) = some _ :=
    run.steps index inside
  rcases invariant.listStep performed with same | ⟨action, moved⟩
  · rw [same] at now
    exact absurd now notYet
  · have change := (invariant.sound.next moved).change
    cases change with
    | same holds => exact absurd ((holds slot removed).1 now) notYet
    | passes other item bound held gone others =>
      by_cases here : slot = other
      · exact absurd (here ▸ now) (gone removed)
      · exact absurd ((others slot here removed).1 now) notYet
    | returns other item bound empty holds others returned passed =>
      by_cases here : slot = other
      · subst here
        have same := (holds removed).1 now
        subst same
        refine ⟨returned, ?_⟩
        exact invariant.sound.acceptedOf_of_returned moved returned config.kind
      · exact absurd ((others slot here removed).1 now) notYet

/-- A step at which an item comes to be accepted. -/
theorem accepts_of_change {slot epoch : Nat} (inside : index < run.length)
    (notYet : (run.state index).list.acceptedOf config.owner ≠ some (slot, epoch))
    (now : (run.state (index + 1)).list.acceptedOf config.owner = some (slot, epoch)) :
    Accepts run slot epoch index := by
  have invariant := Invariant.of_run run index (Nat.le_of_lt inside)
  have performed : (run.state index).next config (run.action index) = some _ :=
    run.steps index inside
  rcases invariant.listStep performed with same | ⟨action, moved⟩
  · rw [same] at now
    exact absurd now notYet
  · exact (GarbageList.State.accepts_of_next moved notYet now).2

/-- A descriptor that was used before comes back through the garbage list. -/
theorem Allocates.reclaimed (allocates : Allocates run d index) (inside : index < run.length)
    {earlier : Nat} (before : earlier < index) (used : Allocates run d earlier) :
    ∃ removed slot release accept, release < accept ∧ accept < index ∧
      removed.item = config.layout.pool.descriptorAddress d ∧ Releases run removed release ∧
      Accepts run slot removed.epoch accept ∧
      ∀ between, release ≤ between → between < index → ¬ Allocates run d between := by
  obtain ⟨last, lastBefore, lastUse, none_⟩ := exists_last (Allocates run d) before used
  have lastInside : last < run.length := Nat.lt_trans lastBefore inside
  have taken : d ∈ (run.state (last + 1)).held := by
    rw [lastUse.step lastInside]
    exact List.mem_cons_self
  have notFree : ¬ (run.state (last + 1)).OnFreeList config d :=
    fun ⟨free, placed, member⟩ => placed.apart d member taken
  obtain ⟨freed, afterLast, beforeIndex, notYet, now⟩ := exists_step_of_change
    (fun index => (run.state index).OnFreeList config d) lastBefore notFree
    (allocates.onFreeList (Nat.le_of_lt inside))
  have freedInside : freed < run.length := Nat.lt_trans beforeIndex inside
  have performed : (run.state freed).next config (run.action freed) = some _ :=
    run.steps freed freedInside
  obtain ⟨slot, removed, holds, address, accepted⟩ :=
    (Invariant.of_run run freed (Nat.le_of_lt freedInside)).freed performed notYet now
  have empty : ¬ (run.state (last + 1)).list.Holds slot removed := by
    intro there
    obtain ⟨free, placed⟩ := (Invariant.of_run run (last + 1) lastInside).placed
    exact (placed.not_mem_of_inSlot ⟨removed, there, address⟩).2 taken
  obtain ⟨release, afterUse, beforeFreed, absent, present⟩ := exists_step_of_change
    (fun index => (run.state index).list.Holds slot removed) afterLast empty holds
  obtain ⟨releases, unaccepted⟩ :=
    releases_of_change (Nat.lt_trans beforeFreed freedInside) absent present
  have notAccepted : ¬ (run.state (release + 1)).list.acceptedOf config.owner =
      some (slot, removed.epoch) := by
    rw [unaccepted]
    exact fun absurdly => nomatch absurdly
  obtain ⟨accept, afterRelease, beforeToo, unasked, asked⟩ := exists_step_of_change
    (fun index => (run.state index).list.acceptedOf config.owner = some (slot, removed.epoch))
    beforeFreed notAccepted accepted
  refine ⟨removed, slot, release, accept, afterRelease, Nat.lt_trans beforeToo beforeIndex, address,
    releases, accepts_of_change (Nat.lt_trans beforeToo freedInside) unasked asked, ?_⟩
  intro between after below
  exact none_ between (Nat.lt_of_lt_of_le afterUse after) below

end

theorem small_base_pos : 0 < 1024 := by decide

theorem small_partitionCount_powerOfTwo : ∃ exponent, 2 = 2 ^ exponent := ⟨1, rfl⟩

theorem small_itemCount_powerOfTwo : ∃ exponent, 4 = 2 ^ exponent := ⟨2, rfl⟩

theorem small_first_lt :
    (EpochManager.Config.small .epochManager).first < GarbageList.invalidEpoch := by decide

/-- The first of two partitions with two descriptors each. -/
def Config.small : Config where
  build := .volatile
  layout := {
    pool := { base := 1024, size := 4, base_pos := small_base_pos }
    partitionCount := 2
    poolSize_powerOfTwo := small_itemCount_powerOfTwo
    partitionCount_powerOfTwo := small_partitionCount_powerOfTwo
    enough := by decide }
  index := 0
  index_lt := by decide
  owner := 1
  list := {
    kind := .garbageListUnsafe 1
    epochs := .small .epochManager
    itemCount := 4
    powerOfTwo := small_itemCount_powerOfTwo
    first_lt := small_first_lt }
  kind := rfl

/-- Descriptor 1 is allocated and aborted, and after the other one is taken `AllocateDescriptor`
scavenges it and returns it again. -/
def abortAndAllocate : List Action :=
  [Action.allocateDescriptor, Action.step, Action.abort 1] ++ List.replicate 11 Action.step ++
    [Action.allocateDescriptor, Action.step, Action.allocateDescriptor] ++ List.replicate 20 Action.step

end Pmwcas.DescriptorPartition
