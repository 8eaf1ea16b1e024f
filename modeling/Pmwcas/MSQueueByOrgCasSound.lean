/-
This file shows that the machine of the queue over plain `CompareExchange64` is simulated by the
abstract queue. Beside the shape of the list the invariant says of each thread what it knows of the
list, which node it has to link, and which node it has put into its cell.
-/

import Pmwcas.MSQueueByOrgCasShape

namespace Pmwcas.MSQueueByOrgCas

open Transition LinkedList

/-! ### The invariant -/

/-- `enq()` has not linked its node yet. -/
def EnqPc.Pending : EnqPc → Prop
  | .flushNext _ | .clearCell _ | .flushCell _ | .exchangeTail _ => False
  | _ => True

/-- The thread has this node to link. -/
def Pc.Owns (memory : Address → Option Nat) (thread node : Nat) : Pc → Prop
  | .loadCell _ => memory (.enqCell thread) = some node
  | .enq newNode _ pc => pc.Pending ∧ newNode = node
  | .idle _ | .deq .. => False

/-- `deq()` has put this node into its cell. -/
def DeqPc.Holds (node : Nat) : DeqPc → Prop
  | .flushCell first _ | .exchangeDel first _ | .flushDel first _ | .checkWon first _
  | .exchangeWon first _ => first = node
  | _ => False

def Pc.Holds (node : Nat) : Pc → Prop
  | .deq _ _ pc => pc.Holds node
  | _ => False

/-- The state of the machine and the queue it holds. -/
structure Sound (state : State) (view : View) : Prop where
  shape : Shape state.store.memory view
  used : ∀ node ∈ view.order, node ∈ state.used
  owns : ∀ thread node, (state.threads thread).Owns state.store.memory thread node →
    Fresh state.store.memory view node ∧ node ∈ state.used
  apart : ∀ one two node, (state.threads one).Owns state.store.memory one node →
    (state.threads two).Owns state.store.memory two node → one = two
  announced : ∀ thread detectType, state.threads thread = .loadCell detectType →
    state.store.memory (.enqCell thread) ≠ none
  fits : ∀ thread, (state.threads thread).Fits view
  holds : ∀ thread node, (state.threads thread).Holds node →
    state.store.memory (.deqCell thread) = some node

theorem Sound.start (sentinel : Nat) : Sound (.start sentinel) ⟨⟨[sentinel], 0, 0⟩, 0⟩ where
  shape :=
    { linked := by
        refine ⟨List.nodup_singleton sentinel, fun index node here => ?_⟩
        have below : index < 1 := index_lt here
        have outside : [sentinel].length ≤ index + 1 := Nat.le_add_left 1 index
        rw [List.getElem?_eq_none outside]
        rfl
      head := rfl
      tail := rfl
      marks := fun index node _ => ⟨fun marked => absurd rfl marked, fun below =>
        absurd below (Nat.not_lt_zero index)⟩
      head_le := Nat.le_refl _
      head_le_marked := Nat.le_refl _
      marked_le_head := Nat.zero_le _
      marked_le := Nat.le_refl _
      tail_lt := Nat.zero_lt_one
      length_le := Nat.le_succ 1 }
  used _ member := member
  owns _ _ owns := owns.elim
  apart _ _ _ owns := owns.elim
  announced _ _ same := by cases same
  fits _ := trivial
  holds _ _ holds := holds.elim

/-! ### Preservation -/

section Preservation

variable {state : State} {view : View}

theorem Pc.Owns.congr {memory memory' : Address → Option Nat} {thread node : Nat} {pc : Pc}
    (owns : pc.Owns memory' thread node)
    (same : memory' (.enqCell thread) = memory (.enqCell thread)) : pc.Owns memory thread node := by
  cases pc with
  | idle | deq => exact owns
  | enq => exact owns
  | loadCell => exact same.symm.trans owns

/-- A step of a thread leaves the cells of the others alone. -/
theorem Effect.others_kept {memory memory' : Address → Option Nat} {view' : View} {thread : Nat}
    {cell : Address} {event : Option Event} (effect : Effect memory view cell event memory' view')
    (isCell : cell = .enqCell thread ∨ cell = .deqCell thread) {other : Nat}
    (different : other ≠ thread) :
    memory' (.enqCell other) = memory (.enqCell other) ∧
      memory' (.deqCell other) = memory (.deqCell other) := by
  refine ⟨effect.cell_kept trivial ?_, effect.cell_kept trivial ?_⟩
  · rcases isCell with rfl | rfl
    · simp [different]
    · simp
  · rcases isCell with rfl | rfl
    · simp
    · simp [different]

/-- What a thread has to link after a step it had to link before. -/
theorem Sound.owned (sound : Sound state view) {thread : Nat} {cell : Address}
    (isCell : cell = .enqCell thread ∨ cell = .deqCell thread) {event : Option Event}
    {memory' : Address → Option Nat} {view' : View}
    (effect : Effect state.store.memory view cell event memory' view')
    {pc : Pc} (own : ∀ node, event = some (.link node) →
      (state.threads thread).Owns state.store.memory thread node)
    (owns : ∀ node, pc.Owns memory' thread node →
      (state.threads thread).Owns state.store.memory thread node ∧ event ≠ some (.link node))
    (other node : Nat) (owned : (Function.update state.threads thread pc other).Owns memory' other node) :
    (state.threads other).Owns state.store.memory other node ∧ event ≠ some (.link node) := by
  by_cases same : other = thread
  · subst same
    rw [Function.update_self] at owned
    exact owns node owned
  · rw [Function.update_of_ne same] at owned
    have before := owned.congr (effect.others_kept isCell same).1
    refine ⟨before, fun links => same ?_⟩
    exact sound.apart other thread node before (own node links)

/-- A step of a thread inside a call. -/
theorem Sound.effect (sound : Sound state view) {thread : Nat} {cell : Address}
    (isCell : cell = .enqCell thread ∨ cell = .deqCell thread) {event : Option Event}
    {store : Store} {view' : View} (effect : Effect state.store.memory view cell event store.memory view')
    {pc : Pc} (own : ∀ node, event = some (.link node) →
      (state.threads thread).Owns state.store.memory thread node)
    (notLoading : ∀ detectType, pc ≠ .loadCell detectType) (fits : pc.Fits view')
    (owns : ∀ node, pc.Owns store.memory thread node →
      (state.threads thread).Owns state.store.memory thread node ∧ event ≠ some (.link node))
    (holds : ∀ node, pc.Holds node → store.memory (.deqCell thread) = some node) :
    Sound ({ state with store := store }.goto thread pc) view' ∧ view.Applies view' event := by
  have cellIsCell : cell.IsCell := by
    rcases isCell with rfl | rfl
    · trivial
    · trivial
  have fresh : ∀ node, event = some (.link node) → Fresh state.store.memory view node :=
    fun node same => (sound.owns thread node (own node same)).1
  obtain ⟨shape, applies⟩ := effect.shape cellIsCell sound.shape fresh
  have owned := sound.owned isCell effect own owns
  have members : ∀ node ∈ view'.order, node ∈ view.order ∨ event = some (.link node) := by
    intro node member
    match event, applies with
    | none, applies => exact .inl (applies.1 ▸ member)
    | some (.mark _), applies => exact .inl (applies.1 ▸ member)
    | some (.link added), applies =>
      rw [applies.1, List.mem_append, List.mem_singleton] at member
      rcases member with earlier | rfl
      · exact .inl earlier
      · exact .inr rfl
  refine ⟨?_, applies⟩
  exact
    { shape := shape
      used := fun node member => by
        rcases members node member with earlier | links
        · exact sound.used node earlier
        · exact (sound.owns thread node (own node links)).2
      owns := fun other node here => by
        obtain ⟨before, notLinked⟩ := owned other node here
        obtain ⟨ready, used⟩ := sound.owns other node before
        exact ⟨effect.fresh_kept cellIsCell ready notLinked, used⟩
      apart := fun one two node first second =>
        sound.apart one two node (owned one node first).1 (owned two node second).1
      announced := fun other detectType here => by
        rw [State.goto_threads] at here
        by_cases same : other = thread
        · rw [same, Function.update_self] at here
          exact absurd here (notLoading detectType)
        · rw [Function.update_of_ne same] at here
          rw [State.goto_store, (effect.others_kept isCell same).1]
          exact sound.announced other detectType here
      fits := fun other => by
        rw [State.goto_threads]
        by_cases same : other = thread
        · rw [same, Function.update_self]
          exact fits
        · rw [Function.update_of_ne same]
          exact (sound.fits other).mono effect.le
      holds := fun other node here => by
        rw [State.goto_threads] at here
        rw [State.goto_store]
        by_cases same : other = thread
        · rw [same, Function.update_self] at here
          rw [same]
          exact holds node here
        · rw [Function.update_of_ne same] at here
          rw [(effect.others_kept isCell same).2]
          exact sound.holds other node here }

/-- What a step of `enq()` does about its node. -/
def EnqPc.Follows (memory : Address → Option Nat) (newNode : Nat) (pc : EnqPc) :
    Option EnqPc → Prop
  | some following => (following.Pending → pc.Pending ∧ enqEvent memory newNode pc = none) ∧
    (¬ following.Pending → pc.Pending ∧ enqEvent memory newNode pc = some (.link newNode) ∨
      ¬ pc.Pending ∧ enqEvent memory newNode pc = none)
  | none => ¬ pc.Pending ∧ enqEvent memory newNode pc = none

theorem stepEnq_follows {store after : Store} {cell : Address} {newNode : Nat} {detectType : Int}
    {pc : EnqPc} {pc' : Option EnqPc}
    (step : stepEnq store cell newNode detectType pc = some (after, pc')) :
    pc.Follows store.memory newNode pc' := by
  cases pc with
  | loadTail =>
    simp only [stepEnq, Option.map_eq_some_iff, Prod.mk.injEq] at step
    obtain ⟨last, points, rfl, rfl⟩ := step
    exact ⟨fun _ => ⟨trivial, rfl⟩, fun not => absurd trivial not⟩
  | checkTail last next =>
    simp only [stepEnq] at step
    split at step
    · cases next with
      | none | some =>
        cases step
        exact ⟨fun _ => ⟨trivial, rfl⟩, fun not => absurd trivial not⟩
    · cases step
      exact ⟨fun _ => ⟨trivial, rfl⟩, fun not => absurd trivial not⟩
  | loadNext | flushBehind | exchangeBehind =>
    cases step
    exact ⟨fun _ => ⟨trivial, rfl⟩, fun not => absurd trivial not⟩
  | exchangeNext last =>
    simp only [stepEnq] at step
    split at step
    · next end_ =>
      cases step
      refine ⟨False.elim, fun _ => .inl ⟨trivial, ?_⟩⟩
      simp only [enqEvent, if_pos end_]
    · next occupied =>
      cases step
      refine ⟨fun _ => ⟨trivial, ?_⟩, fun not => absurd trivial not⟩
      simp only [enqEvent, if_neg occupied]
  | flushNext | flushCell =>
    cases step
    exact ⟨False.elim, fun _ => .inr ⟨id, rfl⟩⟩
  | clearCell last =>
    simp only [stepEnq] at step
    split at step
    · cases step
      exact ⟨False.elim, fun _ => .inr ⟨id, rfl⟩⟩
    · cases step
      exact ⟨False.elim, fun _ => .inr ⟨id, rfl⟩⟩
  | exchangeTail =>
    cases step
    exact ⟨id, rfl⟩

/-- The node in the cell of `deq()` after a step. -/
theorem stepDeq_holds {store after : Store} {cell : Address} {threadIndex : Nat} {detectType : Int}
    {pc following : DeqPc} {node : Nat}
    (step : stepDeq store cell threadIndex detectType pc = some (after, .inl following))
    (isCell : cell.IsCell) (holds : following.Holds node)
    (before : pc.Holds node → store.memory cell = some node) : after.memory cell = some node := by
  cases pc with
  | loadHead =>
    simp only [stepDeq, Option.map_eq_some_iff, Prod.mk.injEq, Sum.inl.injEq] at step
    obtain ⟨node, points, same, rfl⟩ := step
    exact holds.elim
  | loadTail | loadNext | flushLast | exchangeTail | flushMarked | exchangeHead =>
    cases step
    exact holds.elim
  | checkHead first last next =>
    simp only [stepDeq] at step
    split at step
    · split at step
      · cases next with
        | none | some =>
          cases step
          exact holds.elim
      · cases step
        exact holds.elim
    · cases step
      exact holds.elim
  | clearCell =>
    simp only [stepDeq] at step
    split at step
    · cases step
      exact holds.elim
    · cases step
  | flushClear | exchangeWon => cases step
  | loadDel | checkMarked | recheckHead | checkLost =>
    simp only [stepDeq] at step
    split at step
    · cases step
      exact holds.elim
    · cases step
      exact holds.elim
  | storeCell first next =>
    cases step
    split at holds
    · cases holds
      exact Function.update_self _ _ _
    · cases holds
      exact Function.update_self _ _ _
  | flushCell first next | flushDel first next =>
    cases step
    exact before holds
  | exchangeDel first next =>
    simp only [stepDeq] at step
    split at step
    · cases step
      rw [Store.write_memory, Function.update_of_ne]
      · exact before holds
      · rintro rfl
        exact isCell
    · cases step
      exact holds.elim
  | checkWon first next =>
    simp only [stepDeq] at step
    split at step
    · cases step
      exact before holds
    · cases step

end Preservation

/-- The event of a step of the system. -/
def State.event (state : State) : Action → Option Event
  | .step thread =>
    match state.threads thread with
    | .enq newNode _ pc => enqEvent state.store.memory newNode pc
    | .deq _ _ pc => deqEvent state.store.memory pc
    | _ => none
  | _ => none

section Steps

variable {state after : State} {view : View}

/-- What a step leaves: the queue has done what the step's event says. -/
def Moves (state after : State) (action : Action) (view view' : View) : Prop :=
  Sound after view' ∧ view.Le view' ∧ view.Applies view' (state.event action)

/-- A new node is no part of the queue. -/
theorem Shape.prepare {memory : Address → Option Nat} (shape : Shape memory view) (thread : Nat)
    {node : Nat} (new : node ∉ view.order) : Shape (prepare memory thread node) view := by
  have isNot : ∀ other ∈ view.order, other ≠ node := by
    rintro other member rfl
    exact new member
  exact shape.congr (prepare_head memory thread node) (prepare_tail memory thread node)
    (fun other member => prepare_next memory (isNot other member))
    fun other member => prepare_delThreadIndex memory (isNot other member)

theorem Sound.enq (sound : Sound state view) {thread node : Nat} {detectType : Int}
    (step : state.next (.enq thread node detectType) = some after) :
    Moves state after (.enq thread node detectType) view view := by
  simp only [State.next] at step
  split at step
  · next allowed =>
    obtain ⟨idle, new⟩ := allowed
    cases step
    have isNot : ∀ other ∈ state.used, other ≠ node := by
      rintro other member rfl
      exact new member
    have owned : ∀ other owned,
        (Function.update state.threads thread (.loadCell detectType) other).Owns
          (prepare state.store.memory thread node) other owned →
        other = thread ∧ owned = node ∨
          other ≠ thread ∧ (state.threads other).Owns state.store.memory other owned := by
      intro other owned owns
      by_cases same : other = thread
      · rw [same, Function.update_self] at owns
        exact .inl ⟨same, Option.some.inj (owns.symm.trans (prepare_enqCell_self _ _ _))⟩
      · rw [Function.update_of_ne same] at owns
        exact .inr ⟨same, owns.congr (prepare_enqCell _ same)⟩
    refine ⟨?_, .refl view, rfl, rfl⟩
    exact
      { shape := sound.shape.prepare thread fun member => new (sound.used node member)
        used := fun other member => List.mem_cons_of_mem _ (sound.used other member)
        owns := fun other newNode owns => by
          rcases owned other newNode owns with ⟨rfl, rfl⟩ | ⟨different, before⟩
          · exact ⟨⟨fun member => new (sound.used _ member), prepare_next_self _ _ _,
              prepare_delThreadIndex_self _ _ _⟩, List.mem_cons_self⟩
          · obtain ⟨fresh, used⟩ := sound.owns other newNode before
            have different := isNot newNode used
            exact ⟨⟨fresh.new, (prepare_next _ different).trans fresh.alone,
              (prepare_delThreadIndex _ different).trans fresh.unmarked⟩,
              List.mem_cons_of_mem _ used⟩
        apart := fun one two newNode first second => by
          rcases owned one newNode first with ⟨oneSame, new₁⟩ | ⟨-, before₁⟩
          · rcases owned two newNode second with ⟨twoSame, -⟩ | ⟨-, before₂⟩
            · rw [oneSame, twoSame]
            · exact absurd (sound.owns two newNode before₂).2 (new₁ ▸ new)
          · rcases owned two newNode second with ⟨-, new₂⟩ | ⟨-, before₂⟩
            · exact absurd (sound.owns one newNode before₁).2 (new₂ ▸ new)
            · exact sound.apart one two newNode before₁ before₂
        announced := fun other detect here => by
          rw [State.goto_threads] at here
          by_cases same : other = thread
          · rw [same, State.goto_store, Store.prepare_memory, prepare_enqCell_self]
            exact Option.some_ne_none node
          · rw [Function.update_of_ne same] at here
            rw [State.goto_store, Store.prepare_memory, prepare_enqCell _ same]
            exact sound.announced other detect here
        fits := fun other => by
          rw [State.goto_threads]
          by_cases same : other = thread
          · rw [same, Function.update_self]
            trivial
          · rw [Function.update_of_ne same]
            exact sound.fits other
        holds := fun other held here => by
          rw [State.goto_threads] at here
          by_cases same : other = thread
          · rw [same, Function.update_self] at here
            exact here.elim
          · rw [Function.update_of_ne same] at here
            rw [State.goto_store, Store.prepare_memory, prepare_deqCell]
            exact sound.holds other held here }
  · cases step

/-- A thread goes on without a change of the memory. -/
theorem Sound.goto (sound : Sound state view) {thread : Nat} {pc : Pc} (fits : pc.Fits view)
    (notLoading : ∀ detectType, pc ≠ .loadCell detectType)
    (owns : ∀ node, pc.Owns state.store.memory thread node →
      (state.threads thread).Owns state.store.memory thread node)
    (holds : ∀ node, ¬ pc.Holds node) : Sound (state.goto thread pc) view :=
  (sound.effect (.inl rfl) .keep (fun _ same => by cases same) notLoading fits
    (fun node owned => ⟨owns node owned, by simp⟩) fun node held => (holds node held).elim).1

/-- The three kinds of steps of a thread inside a call. -/
inductive ThreadSteps (state : State) (thread : Nat) : Store → Pc → Prop
  | load (newNode : Nat) (detectType : Int) (pc : state.threads thread = .loadCell detectType)
    (cell : state.store.memory (.enqCell thread) = some newNode) :
    ThreadSteps state thread state.store (.enq newNode detectType .loadTail)
  | enq (newNode : Nat) (detectType : Int) (enqPc : EnqPc) (store : Store) (following : Option EnqPc)
    (pc : state.threads thread = .enq newNode detectType enqPc)
    (step : stepEnq state.store (.enqCell thread) newNode detectType enqPc =
      some (store, following)) :
    ThreadSteps state thread store (.afterEnq newNode detectType following)
  | deq (threadIndex : Nat) (detectType : Int) (deqPc : DeqPc) (store : Store)
    (following : DeqPc ⊕ Bool) (pc : state.threads thread = .deq threadIndex detectType deqPc)
    (step : stepDeq state.store (.deqCell thread) threadIndex detectType deqPc =
      some (store, following)) :
    ThreadSteps state thread store (.afterDeq threadIndex detectType following)

theorem stepThread_cases {thread : Nat} (step : state.stepThread thread = some after) :
    ∃ store pc, ThreadSteps state thread store pc ∧
      after = { state with store := store }.goto thread pc := by
  unfold State.stepThread at step
  split at step
  · cases step
  · next detectType pc =>
    simp only [Option.map_eq_some_iff] at step
    obtain ⟨newNode, cell, rfl⟩ := step
    exact ⟨_, _, .load newNode detectType pc cell, rfl⟩
  · next newNode detectType enqPc pc =>
    simp only [Option.map_eq_some_iff] at step
    obtain ⟨⟨store, following⟩, step, rfl⟩ := step
    exact ⟨_, _, .enq newNode detectType enqPc store following pc step, rfl⟩
  · next threadIndex detectType deqPc pc =>
    simp only [Option.map_eq_some_iff] at step
    obtain ⟨⟨store, following⟩, step, rfl⟩ := step
    exact ⟨_, _, .deq threadIndex detectType deqPc store following pc step, rfl⟩

/-- What a step of a thread does to the queue and to what it knows. -/
structure ThreadMoves (state : State) (thread : Nat) (store : Store) (pc : Pc)
    (view view' : View) : Prop where
  effect : ∃ cell, (cell = .enqCell thread ∨ cell = .deqCell thread) ∧
    Effect state.store.memory view cell (state.event (.step thread)) store.memory view'
  own : ∀ node, state.event (.step thread) = some (.link node) →
    (state.threads thread).Owns state.store.memory thread node
  notLoading : ∀ detectType, pc ≠ .loadCell detectType
  fits : pc.Fits view'
  owns : ∀ node, pc.Owns store.memory thread node →
    (state.threads thread).Owns state.store.memory thread node ∧
      state.event (.step thread) ≠ some (.link node)
  holds : ∀ node, pc.Holds node → store.memory (.deqCell thread) = some node

theorem Sound.threadMoves (sound : Sound state view) {thread : Nat} {store : Store} {pc : Pc}
    (steps : ThreadSteps state thread store pc) :
    ∃ view', ThreadMoves state thread store pc view view' := by
  have fits := sound.fits thread
  cases steps with
  | load newNode detectType here cell =>
    have event : state.event (.step thread) = none := by simp only [State.event, here]
    refine ⟨view,
      { effect := ⟨.enqCell thread, .inl rfl, ?_⟩
        own := fun node links => ?_
        notLoading := by simp
        fits := trivial
        owns := fun node owned => ?_
        holds := fun _ held => held.elim }⟩
    · rw [event]
      exact .keep
    · rw [event] at links
      cases links
    · obtain ⟨-, rfl⟩ := owned
      rw [here, event]
      exact ⟨cell, by simp⟩
  | enq newNode detectType enqPc store following here step =>
    rw [here] at fits
    obtain ⟨view', effect, fits'⟩ := stepEnq_effect sound.shape fits step
    have event : state.event (.step thread) = enqEvent state.store.memory newNode enqPc := by
      simp only [State.event, here]
    refine ⟨view',
      { effect := ⟨.enqCell thread, .inl rfl, event ▸ effect⟩
        own := fun node links => ?_
        notLoading := by cases following <;> simp [Pc.afterEnq]
        fits := ?_
        owns := ?_
        holds := ?_ }⟩
    · rw [event] at links
      rw [here]
      cases enqPc with
      | exchangeNext last =>
        simp only [enqEvent] at links
        split at links
        · cases links
          exact ⟨trivial, rfl⟩
        · cases links
      | _ => cases links
    · cases following with
      | none => trivial
      | some following => exact fits' following rfl
    · cases following with
      | none => exact fun _ owned => owned.elim
      | some following =>
        rintro node ⟨pending, rfl⟩
        obtain ⟨before, none_⟩ := (stepEnq_follows step).1 pending
        rw [here, event, none_]
        exact ⟨⟨before, rfl⟩, by simp⟩
    · cases following with
      | none | some => exact fun _ held => held.elim
  | deq threadIndex detectType deqPc store following here step =>
    rw [here] at fits
    obtain ⟨view', effect, fits'⟩ := stepDeq_effect sound.shape fits step
    have event : state.event (.step thread) = deqEvent state.store.memory deqPc := by
      simp only [State.event, here]
    refine ⟨view',
      { effect := ⟨.deqCell thread, .inr rfl, event ▸ effect⟩
        own := fun node links => ?_
        notLoading := by cases following <;> simp [Pc.afterDeq]
        fits := ?_
        owns := ?_
        holds := ?_ }⟩
    · rw [event] at links
      cases deqPc with
      | exchangeDel first next =>
        simp only [deqEvent] at links
        split at links
        · cases links
        · cases links
      | _ => cases links
    · cases following with
      | inl following => exact fits' following rfl
      | inr => trivial
    · cases following with
      | inl | inr => exact fun _ owned => owned.elim
    · cases following with
      | inl following =>
        intro node held
        refine stepDeq_holds step trivial held fun before => sound.holds thread node ?_
        rw [here]
        exact before
      | inr => exact fun _ held => held.elim

theorem Sound.stepThread (sound : Sound state view) {thread : Nat}
    (step : state.stepThread thread = some after) :
    ∃ view', Moves state after (.step thread) view view' := by
  obtain ⟨store, pc, steps, rfl⟩ := stepThread_cases step
  obtain ⟨view', moves⟩ := sound.threadMoves steps
  obtain ⟨cell, isCell, effect⟩ := moves.effect
  obtain ⟨after, applies⟩ := sound.effect isCell effect moves.own moves.notLoading moves.fits
    moves.owns moves.holds
  exact ⟨view', after, effect.le, applies⟩

/-- Every step of the machine is one of the abstract queue. -/
theorem Sound.next (sound : Sound state view) {action : Action}
    (step : state.next action = some after) : ∃ view', Moves state after action view view' := by
  cases action with
  | enq thread node detectType => exact ⟨view, sound.enq step⟩
  | deq thread threadIndex detectType =>
    simp only [State.next] at step
    split at step
    · cases step
      exact ⟨view, sound.goto trivial (by simp) (fun _ owned => owned.elim) fun _ held => held.elim,
        .refl view, rfl, rfl⟩
    · cases step
  | step thread => exact sound.stepThread step
  | writeBack address =>
    cases step
    exact ⟨view, { sound with }, .refl view, rfl, rfl⟩

end Steps

end Pmwcas.MSQueueByOrgCas
