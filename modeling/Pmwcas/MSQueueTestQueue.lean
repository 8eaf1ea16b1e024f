/-
This file is about the steps of the benchmark queue inside `enq()` and `deq()`, about calls and
crashes, and puts all steps together.
-/

import Pmwcas.MSQueueTestSteps

namespace Pmwcas.MSQueueTest

open Transition MSQueueByPMWCas LinkedList

section Operations

variable {threadNum : Nat} {state after : State} {queue queue' : Queue Nat} {thread : Nat}

/-! ### The images after an operation -/

theorem Cell.address_ne_enqCell {cell : Cell} (different : cell ≠ .enq thread) :
    cell.address ≠ .enqCell thread :=
  fun same => different (show cell = .enq thread from Cell.address_injective same)

theorem Cell.address_ne_deqCell {cell : Cell} (different : cell ≠ .deq thread) :
    cell.address ≠ .deqCell thread :=
  fun same => different (show cell = .deq thread from Cell.address_injective same)

/-- What linking a node does to the memory. -/
structure MemoryLinks (memory memory' : Memory) (thread last newNode : Nat) : Prop where
  next : ∀ node, memory' (.next node) =
    Function.update (fun node => memory (.next node)) last (some newNode) node
  head : memory' .head = memory .head
  enqCell : memory' (.enqCell thread) = none
  cells : ∀ cell : Cell, cell ≠ .enq thread → memory' cell.address = memory cell.address

theorem MemoryLinks.mwcas (memory : Memory) (thread last newNode : Nat) :
    MemoryLinks memory (((memory.write (.next last) (some newNode)).write .tail
      (some newNode)).write (.enqCell thread) none) thread last newNode where
  next node := by
    rw [Memory.write_of_ne _ (by simp), Memory.write_of_ne _ (by simp)]
    exact congrFun (memory.write_next last (some newNode)) node
  head := by
    rw [Memory.write_of_ne _ (by simp), Memory.write_of_ne _ (by simp), Memory.write_of_ne _ (by simp)]
  enqCell := by rw [Memory.write_self]
  cells cell different := by
    rw [Memory.write_of_ne _ (Cell.address_ne_enqCell different),
      Memory.write_of_ne _ cell.address_ne_tail.symm, Memory.write_of_ne _ (cell.address_ne_next last).symm]

theorem MemoryLinks.links {image : Image} {memory : Memory} {thread last newNode : Nat}
    (links : MemoryLinks image.memory memory thread last newNode) :
    Links image { image with memory := memory } thread last newNode where
  next := links.next
  head := links.head
  cell cell := by
    by_cases own : cell = .enq thread
    · rw [if_pos own, own]
      exact links.enqCell
    · rw [if_neg own]
      exact links.cells cell own
  busy _ _ := Iff.rfl

/-- The lines of the words that have changed get into NVM. -/
theorem Links.writeBack {current current' : Image} {last newNode : Nat}
    (links : Links current current' thread last newNode) (persisted : Image) {lines : List Line}
    (node : Line.node last ∈ lines) (cell : Line.enqCell thread ∈ lines)
    (only : ∀ line ∈ lines, line = .node last ∨ line = .tail ∨ line = .enqCell thread) :
    Links persisted (persisted.writeBack current' lines) thread last newNode where
  next other := by
    by_cases same : other = last
    · rw [same, Function.update_self]
      refine (Image.writeBack_of_mem node).trans ?_
      rw [show current'.memory (.next last) = current'.nextOf last from rfl, links.next,
        Function.update_self]
    · rw [Function.update_of_ne same]
      refine Image.writeBack_of_not_mem fun member => ?_
      rcases only _ member with here | here | here
      · cases here
        exact same rfl
      · cases here
      · cases here
  head := Image.writeBack_of_not_mem fun member => by
    rcases only _ member with here | here | here
    · cases here
    · cases here
    · cases here
  cell other := by
    by_cases own : other = .enq thread
    · rw [if_pos own, own]
      refine (Image.writeBack_of_mem cell).trans ?_
      have gone := links.cell (.enq thread)
      rw [if_pos rfl] at gone
      exact gone
    · rw [if_neg own]
      refine Image.writeBack_of_not_mem fun member => ?_
      cases other with
      | enq another =>
        rcases only _ member with here | here | here
        · cases here
        · cases here
        · cases here
          exact own rfl
      | deq another =>
        rcases only _ member with here | here | here
        · cases here
        · cases here
        · cases here
  busy other different := Image.writeBack_busy_of_not_mem fun member => by
    rcases only _ member with here | here | here
    · cases here
      exact different rfl
    · cases here
    · cases here

theorem takes_of_dcas (image : Image) (thread first : Nat) (following : Option Nat) {memory : Memory}
    (same : memory = image.memory.dcas .head (.deqCell thread) following (some first)) :
    Takes image { image with memory := memory } thread first following where
  next node := by
    show memory (.next node) = image.memory (.next node)
    rw [same, Memory.dcas, Memory.write_of_ne _ (by simp), Memory.write_of_ne _ (by simp)]
  head := by
    show memory .head = following
    rw [same, Memory.dcas, Memory.write_of_ne _ (by simp), Memory.write_self]
  cell cell := by
    show memory cell.address = _
    rw [same]
    by_cases own : cell = .deq thread
    · rw [if_pos own, own]
      exact Memory.write_self _ _ _
    · rw [if_neg own, Memory.dcas, Memory.write_of_ne _ (Cell.address_ne_deqCell own),
        Memory.write_of_ne _ cell.address_ne_head.symm]
      rfl
  busy _ := Iff.rfl

theorem Takes.writeBack {current current' : Image} {first : Nat} {following : Option Nat}
    (takes : Takes current current' thread first following) (persisted : Image) :
    Takes persisted (persisted.writeBack current' [.head, .deqCell thread]) thread first following where
  next node := Image.writeBack_of_not_mem fun member => by
    rw [List.mem_pair] at member
    rcases member with here | here
    · cases here
    · cases here
  head := (Image.writeBack_of_mem List.mem_cons_self).trans takes.head
  cell cell := by
    by_cases own : cell = .deq thread
    · rw [if_pos own, own]
      refine (Image.writeBack_of_mem (List.mem_cons_of_mem _ (List.mem_singleton.2 rfl))).trans ?_
      have placed := takes.cell (.deq thread)
      rw [if_pos rfl] at placed
      exact placed
    · rw [if_neg own]
      refine Image.writeBack_of_not_mem fun member => ?_
      rw [List.mem_pair] at member
      cases cell with
      | enq other =>
        rcases member with here | here
        · cases here
        · cases here
      | deq other =>
        rcases member with here | here
        · cases here
        · cases here
          exact own rfl
  busy node := Image.writeBack_busy_of_not_mem fun member => by
    rw [List.mem_pair] at member
    rcases member with here | here
    · cases here
    · cases here

/-! ### Steps that change no node -/

/-- A step without an event leaves the memory as it is or moves the tail. -/
theorem Effect.silent {memory memory' : Memory} {event : Option Event}
    (effect : Effect memory queue thread event memory' queue') (none_ : event = none) :
    memory' = memory ∧ queue' = queue ∨ ∃ last next, queue.Follows last next ∧
      memory .tail = some last ∧ memory' = memory.write .tail (some next) ∧
      queue' = { queue with tail := queue.tail + 1 } := by
  cases effect with
  | keep => exact .inl ⟨rfl, rfl⟩
  | moveTail last next follows points => exact .inr ⟨last, next, follows, points, rfl, rfl⟩
  | link | linkTail | take => cases none_

theorem Effect.silent_kept {memory memory' : Memory} {event : Option Event}
    (effect : Effect memory queue thread event memory' queue') (none_ : event = none) :
    queue'.order = queue.order ∧ queue'.head = queue.head := by
  rcases Effect.silent effect none_ with ⟨-, rfl⟩ | ⟨last, next, -, -, -, rfl⟩
  · exact ⟨rfl, rfl⟩
  · exact ⟨rfl, rfl⟩

/-- The tail does not move to the node where it is. -/
theorem Sound.not_moved (sound : Sound threadNum state queue) {last next : Nat}
    (follows : queue.Follows last next) (points : state.current.memory .tail = some last)
    (same : state.current.memory.write .tail (some next) = state.current.memory) : False := by
  have moved : state.current.memory .tail = some next := by
    rw [← same, Memory.write_self]
  rw [points] at moved
  cases moved
  obtain ⟨index, -, first, second⟩ := follows
  exact Nat.succ_ne_self index (sound.shape.linked.index_unique second first)

/-- A step of an operation that changes no node. The tail does not move without one. -/
theorem Moves.silent (sound : Sound threadNum state queue) {memory : Memory}
    {event : Option Event} (effect : Effect state.current.memory queue thread event memory queue')
    (none_ : event = none) (still : memory = state.current.memory) :
    Moves state queue thread { state.current with memory := memory } state.persisted queue' ∧
      ∀ cell, KeptAt state.current state.persisted { state.current with memory := memory }
        state.persisted cell := by
  rcases Effect.silent effect none_ with ⟨rfl, rfl⟩ | ⟨last, next, follows, points, rfl, rfl⟩
  · exact ⟨.keep sound thread, fun cell => KeptAt.of_same (fun _ => rfl) rfl (fun _ => rfl) cell⟩
  · exact (sound.not_moved follows points still).elim

theorem writeBack_nil (persisted current : Image) : persisted.writeBack current [] = persisted := by
  unfold Image.writeBack
  congr 1

/-! ### `enq()` -/

/-- The next step of `enq()` is one of `MSQueueByPMWCas` again. -/
theorem stepEnq_of {memory memory' : Memory} {cell : Address} {newNode : Nat} {pc following : EnqPc}
    (own : EnqPc.Of pc)
    (step : stepEnq .pmwcas memory cell newNode pc = some (memory', some following)) :
    EnqPc.Of following := by
  cases pc with
  | loadTail =>
    simp only [stepEnq, Option.map_eq_some_iff, Prod.mk.injEq, Option.some.injEq] at step
    obtain ⟨last, -, -, rfl⟩ := step
    trivial
  | recheckTail last =>
    simp only [stepEnq] at step
    split at step
    · cases step
      trivial
    · cases step
      trivial
  | mwcas last =>
    simp only [stepEnq] at step
    split at step
    · cases step
    · cases step
      trivial
  | loadNext | checkTail | dcas | exchangeTail | exchangeBehind => exact own.elim

/-- A step of `enq()` without an event changes and flushes nothing. -/
theorem stepEnq_silent {memory memory' : Memory} {newNode : Nat} {pc : EnqPc}
    {following : Option EnqPc} (own : EnqPc.Of pc)
    (step : stepEnq .pmwcas memory (.enqCell thread) newNode pc = some (memory', following))
    (none_ : enqEvent memory (.enqCell thread) newNode pc = none) :
    EnqPc.flushes memory thread newNode pc = [] ∧ memory' = memory := by
  cases pc with
  | loadTail =>
    simp only [stepEnq, Option.map_eq_some_iff, Prod.mk.injEq] at step
    obtain ⟨last, -, same, -⟩ := step
    exact ⟨rfl, same.symm⟩
  | recheckTail last =>
    simp only [stepEnq] at step
    split at step
    · cases step
      exact ⟨rfl, rfl⟩
    · cases step
      exact ⟨rfl, rfl⟩
  | mwcas last =>
    simp only [enqEvent] at none_
    split at none_
    · cases none_
    · next other =>
      simp only [stepEnq, if_neg other] at step
      cases step
      exact ⟨if_neg other, rfl⟩
  | loadNext | checkTail | dcas | exchangeTail | exchangeBehind => exact own.elim

/-- What a step of `enq()` leaves. -/
structure EnqGoes (state : State) (queue : Queue Nat) (thread newNode : Nat)
    (caller : Caller) (current persisted : Image) (following : Option EnqPc) (linked : Nat)
    (queue' : Queue Nat) : Prop where
  length : queue'.order.length = queue.order.length + linked
  head : queue'.head = queue.head
  moves : Moves state queue thread current persisted queue'
  caller : caller.Fits current persisted thread
  fits : ∀ next, following = some next → next.Fits queue' newNode ∧
    (next.Pending → Ready current persisted (.enq thread) newNode) ∧
    (¬ next.Pending → Empty current persisted (.enq thread))
  returned : following = none → Empty current persisted (.enq thread)

/-- The step that links the new node. -/
theorem Sound.enqLinks (sound : Sound threadNum state queue) {caller : Caller} {newNode last : Nat}
    (callerFits : caller.Fits state.current state.persisted thread)
    (ready : Ready state.current state.persisted (.enq thread) newNode) (passed : queue.Passed last)
    (end_ : state.current.memory (.next last) = none) {memory : Memory} {event : Option Event}
    (effect : Effect state.current.memory queue thread event memory queue')
    (event_ : event = some (.link newNode))
    (links : MemoryLinks state.current.memory memory thread last newNode) {lines : List Line}
    (node : Line.node last ∈ lines) (cell : Line.enqCell thread ∈ lines)
    (only : ∀ line ∈ lines, line = .node last ∨ line = .tail ∨ line = .enqCell thread)
    (tail : Line.tail ∈ lines) {following : Option EnqPc}
    (fits : ∀ next, following = some next → next.Fits queue' newNode ∧ ¬ next.Pending) :
    EnqGoes state queue thread newNode caller { state.current with memory := memory }
      (state.persisted.writeBack { state.current with memory := memory } lines) following 1 queue' := by
  obtain ⟨alone, -⟩ := sound.consistent.alone thread newNode (.inl ready.1)
  have fresh : Fresh state.current.memory queue newNode :=
    ⟨sound.consistent.notLinked thread newNode (.inl ready.1), alone ready.2.1⟩
  obtain ⟨shape, applies⟩ := effect.shape sound.shape fun added same => by
    rw [event_] at same
    cases same
    exact fresh
  have later := effect.le
  rw [event_] at applies
  obtain ⟨order, head⟩ := applies
  obtain ⟨index, below, place⟩ := passed
  have length := sound.shape.linked.last place end_
  have ordered := sound.shape.head_le
  have bound := sound.shape.tail_lt
  have live : Live queue last := ⟨index, by omega, place⟩
  have imageLinks := links.links
  have persistedLinks := imageLinks.writeBack state.persisted node cell only
  have busyLast := (sound.consistent.busy last live).1
  have moves := Moves.link sound ⟨index, below, place⟩ end_ ready imageLinks persistedLinks
    ⟨busyLast, (Image.writeBack_busy_of_mem node).2 busyLast⟩ shape
    (Image.writeBack_of_mem tail) order head later.tail
  have empty : Empty { state.current with memory := memory }
      (state.persisted.writeBack { state.current with memory := memory } lines) (.enq thread) :=
    ⟨links.enqCell, (Image.writeBack_of_mem cell).trans links.enqCell⟩
  have kept := KeptAt.link sound.consistent live imageLinks persistedLinks
    (show Cell.deq thread ≠ .enq thread from nofun)
  exact
    { length := by rw [order, List.length_append, List.length_singleton]
      head := head
      moves := moves
      caller := callerFits.kept kept
      fits := fun next same =>
        ⟨(fits next same).1, fun pending => absurd pending (fits next same).2, fun _ => empty⟩
      returned := fun _ => empty }

theorem Sound.enqGoes (sound : Sound threadNum state queue) {caller : Caller} {newNode : Nat}
    {pc : EnqPc} (here : state.threads thread = .enq caller newNode pc) {memory : Memory}
    {following : Option EnqPc}
    (step : stepEnq .pmwcas state.current.memory (.enqCell thread) newNode pc =
      some (memory, following)) :
    ∃ queue', EnqGoes state queue thread newNode caller { state.current with memory := memory }
      (state.persisted.writeBack { state.current with memory := memory }
        (EnqPc.flushes state.current.memory thread newNode pc)) following
      (if enqEvent state.current.memory (.enqCell thread) newNode pc = none then 0 else 1) queue' := by
  have fits := sound.fits thread
  rw [here] at fits
  obtain ⟨callerFits, own, knows, ready, empty⟩ := fits
  obtain ⟨queue', moves⟩ := stepEnq_moves sound.shape knows step
  have follows := moves.follows
  refine ⟨queue', ?_⟩
  by_cases none_ : enqEvent state.current.memory (.enqCell thread) newNode pc = none
  · obtain ⟨flushes, still⟩ := stepEnq_silent own step none_
    obtain ⟨silent, kept⟩ := Moves.silent sound moves.effect none_ still
    obtain ⟨order, head⟩ := Effect.silent_kept moves.effect none_
    rw [flushes, writeBack_nil, if_pos none_]
    refine
      { length := congrArg List.length order
        head := head
        moves := silent
        caller := callerFits.kept (kept _)
        fits := fun next same => ⟨moves.fits next same, fun pending => ?_, fun linked => ?_⟩
        returned := fun same => ?_ }
    · subst same
      exact (ready (follows.1 pending).1).kept (kept _)
    · subst same
      have links := (follows.2 linked).2
      rw [none_] at links
      cases links
    · subst same
      rcases follows with ⟨-, links⟩ | ⟨linked, -⟩
      · rw [none_] at links
        cases links
      · exact (empty linked).kept (kept _)
  · have links : enqEvent state.current.memory (.enqCell thread) newNode pc = some (.link newNode) ∧
        pc.Pending ∧ ∀ next, following = some next → ¬ next.Pending := by
      cases following with
      | none =>
        rcases follows with ⟨pending, links⟩ | ⟨-, silent⟩
        · exact ⟨links, pending, nofun⟩
        · exact absurd silent none_
      | some next =>
        by_cases pending : next.Pending
        · exact absurd (follows.1 pending).2 none_
        · obtain ⟨before, links⟩ := follows.2 pending
          refine ⟨links, before, fun other same => ?_⟩
          cases same
          exact pending
    obtain ⟨event, pending, linked⟩ := links
    rw [if_neg none_]
    have fits : ∀ next, following = some next → next.Fits queue' newNode ∧ ¬ next.Pending :=
      fun next same => ⟨moves.fits next same, linked next same⟩
    cases pc with
    | mwcas last =>
      have expected : state.current.memory (.next last) = none ∧
          state.current.memory .tail = some last ∧
          state.current.memory (.enqCell thread) = some newNode := by
        by_contra other
        simp only [enqEvent, if_neg other] at event
        cases event
      simp only [stepEnq, if_pos expected, Option.some.injEq, Prod.mk.injEq] at step
      obtain ⟨rfl, -⟩ := step
      have flushes : EnqPc.flushes state.current.memory thread newNode (.mwcas last) =
          [.node last, .tail, .enqCell thread] := if_pos expected
      rw [flushes]
      exact sound.enqLinks callerFits (ready pending) knows expected.1 moves.effect event
        (MemoryLinks.mwcas _ _ _ _) (by simp) (by simp) (by simp) (by simp) fits
    | loadTail | recheckTail => cases event
    | loadNext | checkTail | dcas | exchangeTail | exchangeBehind => exact own.elim

/-- How many nodes the next step of a thread links. -/
def State.links (state : State) (thread : Nat) : Nat :=
  match state.threads thread with
  | .enq _ newNode pc =>
    if enqEvent state.current.memory (.enqCell thread) newNode pc = none then 0 else 1
  | _ => 0

theorem Sound.stepEnq (sound : Sound threadNum state queue) (inside : thread < threadNum)
    {caller : Caller} {newNode : Nat} {pc : EnqPc}
    (here : state.threads thread = .enq caller newNode pc)
    (step : state.stepThread threadNum thread = some after) :
    Goes threadNum state after queue (state.links thread) 0 := by
  have fits := sound.fits thread
  rw [here] at fits
  obtain ⟨-, own, -⟩ := fits
  simp only [State.stepThread, here, Option.map_eq_some_iff] at step
  obtain ⟨⟨memory, following⟩, step, rfl⟩ := step
  obtain ⟨queue', goes⟩ := sound.enqGoes here step
  have links : state.links thread =
      if enqEvent state.current.memory (.enqCell thread) newNode pc = none then 0 else 1 := by
    simp only [State.links, here]
  have length : queue'.order.length = queue.order.length + state.links thread := by
    rw [links]
    exact goes.length
  cases following with
  | some following =>
    obtain ⟨knows, ready, empty⟩ := goes.fits following rfl
    exact sound.goes inside goes.moves rfl rfl rfl (by rw [here]; rfl)
      ⟨goes.caller, stepEnq_of own step, knows, ready, empty⟩ length goes.head
  | none =>
    have empty := goes.returned rfl
    have callerFits := goes.caller
    cases caller with
    | enqueue =>
      exact sound.goes inside goes.moves rfl rfl rfl (by rw [here]; rfl) ⟨empty, callerFits⟩
        length goes.head
    | recover =>
      exact sound.goes inside goes.moves rfl rfl rfl (by rw [here]; rfl) ⟨empty, callerFits⟩
        length goes.head

/-! ### `deq()` -/

/-- The next step of `deq()` is one of `MSQueueByPMWCas` again. -/
theorem stepDeq_of {memory memory' : Memory} {cell : Address} {pc following : DeqPc}
    (own : DeqPc.Of pc) (step : stepDeq .pmwcas memory cell pc = some (memory', some following)) :
    DeqPc.Of following := by
  cases pc with
  | loadHead | loadTail =>
    simp only [stepDeq, Option.map_eq_some_iff, Prod.mk.injEq, Option.some.injEq] at step
    obtain ⟨last, -, -, rfl⟩ := step
    trivial
  | loadNext first last =>
    cases step
    trivial
  | checkHead first last firstNext =>
    simp only [stepDeq] at step
    split at step
    · split at step
      · cases firstNext with
        | none => cases step
        | some next =>
          cases step
          trivial
      · cases step
        trivial
    · cases step
      trivial
  | loadCell first firstNext =>
    cases step
    trivial
  | mwcas first firstNext old =>
    simp only [stepDeq] at step
    split at step
    · cases step
    · cases step
      trivial
  | dcas | exchangeTail | flushCell => exact own.elim

/-- A step of `deq()` without an event changes and flushes nothing. -/
theorem stepDeq_silent {memory memory' : Memory} {pc : DeqPc} {following : Option DeqPc}
    (own : DeqPc.Of pc)
    (step : stepDeq .pmwcas memory (.deqCell thread) pc = some (memory', following))
    (none_ : deqEvent memory (.deqCell thread) pc = none) :
    DeqPc.flushes memory thread pc = [] ∧ memory' = memory := by
  cases pc with
  | loadHead | loadTail =>
    simp only [stepDeq, Option.map_eq_some_iff, Prod.mk.injEq] at step
    obtain ⟨last, -, same, -⟩ := step
    exact ⟨rfl, same.symm⟩
  | loadNext first last =>
    cases step
    exact ⟨rfl, rfl⟩
  | checkHead first last firstNext =>
    simp only [stepDeq] at step
    split at step
    · split at step
      · cases firstNext with
        | none | some =>
          cases step
          exact ⟨rfl, rfl⟩
      · cases step
        exact ⟨rfl, rfl⟩
    · cases step
      exact ⟨rfl, rfl⟩
  | loadCell first firstNext =>
    cases step
    exact ⟨rfl, rfl⟩
  | mwcas first firstNext old =>
    simp only [deqEvent] at none_
    split at none_
    · cases none_
    · next other =>
      simp only [stepDeq, if_neg other] at step
      cases step
      exact ⟨if_neg other, rfl⟩
  | dcas | exchangeTail | flushCell => exact own.elim

/-- What a step of `deq()` leaves. -/
structure DeqGoes (state : State) (queue : Queue Nat) (thread : Nat)
    (current persisted : Image) (following : Option DeqPc) (taken : Nat) (queue' : Queue Nat) :
    Prop where
  order : queue'.order = queue.order
  head : queue'.head = queue.head + taken
  moves : Moves state queue thread current persisted queue'
  empty : Empty current persisted (.enq thread)
  fits : ∀ next, following = some next → next.Fits queue' ∧ DeqDone current persisted thread
  returned : following = none → Agrees current persisted (.deq thread)

/-- The step that takes the first node. -/
theorem Sound.deqTakes (sound : Sound threadNum state queue) {first : Nat} {next : Option Nat}
    (empty : Empty state.current state.persisted (.enq thread))
    (quiet : Quiet state.current state.persisted (.deq thread)) (ahead : queue.Ahead first next)
    (points : state.current.memory .head = some first) {memory : Memory}
    (same : memory = state.current.memory.dcas .head (.deqCell thread) next (some first)) :
    ∃ queue', DeqGoes state queue thread { state.current with memory := memory }
      (state.persisted.writeBack { state.current with memory := memory } [.head, .deqCell thread])
      none 1 queue' := by
  have effect : Effect state.current.memory queue thread (some (.take first)) memory
      { queue with head := queue.head + 1 } := same ▸ .take first next ahead points
  obtain ⟨shape, -⟩ := effect.shape sound.shape (by simp)
  have takes := takes_of_dcas state.current thread first next same
  have takesPersisted := takes.writeBack state.persisted
  have tailKept : memory .tail = state.current.memory .tail := by
    rw [same, Memory.dcas, Memory.write_of_ne _ (by simp), Memory.write_of_ne _ (by simp)]
  have live : Live queue first := by
    obtain ⟨index, below, node, inside, here, there, -⟩ := ahead
    obtain rfl := Queue.Held.head_index sound.shape points here
    exact ⟨queue.head, Nat.le_refl _, here⟩
  obtain ⟨busy, busyPersisted⟩ := sound.consistent.busy first live
  have moves := Moves.take sound ahead points quiet takes takesPersisted shape <| by
    have outside : Line.tail ∉ [Line.head, .deqCell thread] := by simp
    exact (Image.writeBack_of_not_mem outside).trans (sound.tail.trans tailKept.symm)
  have cell := takes.cell (.deq thread)
  have cellPersisted := takesPersisted.cell (.deq thread)
  rw [if_pos rfl] at cell cellPersisted
  refine ⟨{ queue with head := queue.head + 1 }, rfl, rfl, moves,
    empty.kept (KeptAt.take takes takesPersisted (by simp)), by simp, fun _ => ?_⟩
  refine ⟨cell.trans cellPersisted.symm, fun node here => ?_⟩
  obtain rfl := Option.some.inj (cell.symm.trans here)
  exact ⟨fun _ => (takesPersisted.busy first).2 busyPersisted, fun _ => (takes.busy first).2 busy⟩

theorem Sound.deqGoes (sound : Sound threadNum state queue) {pc : DeqPc}
    (here : state.threads thread = .deq pc) {memory : Memory} {following : Option DeqPc}
    (step : stepDeq .pmwcas state.current.memory (.deqCell thread) pc = some (memory, following)) :
    ∃ queue', DeqGoes state queue thread { state.current with memory := memory }
      (state.persisted.writeBack { state.current with memory := memory }
        (DeqPc.flushes state.current.memory thread pc)) following
      (if deqEvent state.current.memory (.deqCell thread) pc = none then 0 else 1) queue' := by
  have fits := sound.fits thread
  rw [here] at fits
  obtain ⟨empty, done, own, knows⟩ := fits
  obtain ⟨queue', moves⟩ := stepDeq_moves sound.shape knows step
  by_cases none_ : deqEvent state.current.memory (.deqCell thread) pc = none
  · obtain ⟨flushes, still⟩ := stepDeq_silent own step none_
    obtain ⟨silent, kept⟩ := Moves.silent sound moves.effect none_ still
    obtain ⟨order, head⟩ := Effect.silent_kept moves.effect none_
    rw [flushes, writeBack_nil, if_pos none_]
    have doneKept := done.kept (kept _)
    exact ⟨queue', order, head, silent, empty.kept (kept _),
      fun next same => ⟨moves.fits next same, doneKept⟩, fun _ => doneKept.agrees⟩
  · rw [if_neg none_]
    cases pc with
    | mwcas first firstNext old =>
      have expected : state.current.memory .head = some first ∧
          state.current.memory (.deqCell thread) = old := by
        by_contra other
        exact none_ (if_neg other)
      simp only [stepDeq, if_pos expected, Option.some.injEq, Prod.mk.injEq] at step
      obtain ⟨same, rfl⟩ := step
      have flushes : DeqPc.flushes state.current.memory thread (.mwcas first firstNext old) =
          [.head, .deqCell thread] := if_pos expected
      rw [flushes]
      exact sound.deqTakes empty done.quiet knows expected.1 same.symm
    | loadHead | loadTail | loadNext | checkHead | loadCell => exact absurd rfl none_
    | dcas | exchangeTail | flushCell => exact own.elim

/-- How many nodes the next step of a thread takes. -/
def State.takes (state : State) (thread : Nat) : Nat :=
  match state.threads thread with
  | .deq pc => if deqEvent state.current.memory (.deqCell thread) pc = none then 0 else 1
  | _ => 0

theorem Sound.stepDeq (sound : Sound threadNum state queue) (inside : thread < threadNum)
    {pc : DeqPc} (here : state.threads thread = .deq pc)
    (step : state.stepThread threadNum thread = some after) :
    Goes threadNum state after queue 0 (state.takes thread) := by
  have fits := sound.fits thread
  rw [here] at fits
  obtain ⟨-, -, own, -⟩ := fits
  simp only [State.stepThread, here, Option.map_eq_some_iff] at step
  obtain ⟨⟨memory, following⟩, step, rfl⟩ := step
  obtain ⟨queue', goes⟩ := sound.deqGoes here step
  have takes : state.takes thread =
      if deqEvent state.current.memory (.deqCell thread) pc = none then 0 else 1 := by
    simp only [State.takes, here]
  have length : queue'.order.length = queue.order.length + 0 := congrArg List.length goes.order
  have head : queue'.head = queue.head + state.takes thread := by
    rw [takes]
    exact goes.head
  cases following with
  | some following =>
    obtain ⟨knows, done⟩ := goes.fits following rfl
    exact sound.goes inside goes.moves rfl rfl rfl (by rw [here]; rfl)
      ⟨goes.empty, done, stepDeq_of own step, knows⟩ length head
  | none =>
    exact sound.goes inside goes.moves rfl rfl rfl (by rw [here]; rfl) ⟨goes.empty, goes.returned rfl⟩
      length head

/-! ### All steps -/

theorem State.links_of_not_enq
    (other : ∀ caller newNode pc, state.threads thread ≠ .enq caller newNode pc) :
    state.links thread = 0 := by
  unfold State.links
  split
  · next caller newNode pc here => exact absurd here (other caller newNode pc)
  · rfl

theorem State.takes_of_not_deq (other : ∀ pc, state.threads thread ≠ .deq pc) :
    state.takes thread = 0 := by
  unfold State.takes
  split
  · next pc here => exact absurd here (other pc)
  · rfl

theorem Sound.stepThread (sound : Sound threadNum state queue) (inside : thread < threadNum)
    (step : state.stepThread threadNum thread = some after) :
    Goes threadNum state after queue (state.links thread) (state.takes thread) := by
  have still : (∀ caller newNode pc, state.threads thread ≠ .enq caller newNode pc) →
      (∀ pc, state.threads thread ≠ .deq pc) → Goes threadNum state after queue 0 0 →
      Goes threadNum state after queue (state.links thread) (state.takes thread) := by
    intro notEnq notDeq goes
    rw [State.links_of_not_enq notEnq, State.takes_of_not_deq notDeq]
    exact goes
  cases here : state.threads thread with
  | enq =>
    rw [State.takes_of_not_deq (by simp [here])]
    exact sound.stepEnq inside here step
  | deq =>
    rw [State.links_of_not_enq (by simp [here])]
    exact sound.stepDeq inside here step
  | idle =>
    simp only [State.stepThread, here] at step
    cases step
  | restarted => exact still (by simp [here]) (by simp [here]) (sound.stepRestarted inside here step)
  | doRecoverEnq => exact still (by simp [here]) (by simp [here]) (sound.stepDoRecoverEnq inside here step)
  | clearEnqCell => exact still (by simp [here]) (by simp [here]) (sound.stepClearEnqCell inside here step)
  | flushEnqCell => exact still (by simp [here]) (by simp [here]) (sound.stepFlushEnqCell inside here step)
  | recoverDeq => exact still (by simp [here]) (by simp [here]) (sound.stepRecoverDeq inside here step)
  | doRecoverDeq => exact still (by simp [here]) (by simp [here]) (sound.stepDoRecoverDeq inside here step)
  | recovered => exact still (by simp [here]) (by simp [here]) (sound.stepRecovered inside here step)
  | barrier => exact still (by simp [here]) (by simp [here]) (sound.stepBarrier inside here step)
  | prepare => exact still (by simp [here]) (by simp [here]) (sound.stepPrepare inside here step)
  | loadEnqCell => exact still (by simp [here]) (by simp [here]) (sound.stepLoadEnqCell inside here step)
  | loadResult => exact still (by simp [here]) (by simp [here]) (sound.stepLoadResult inside here step)
  | clean => exact still (by simp [here]) (by simp [here]) (sound.stepClean inside here step)
  | clearDeqCell => exact still (by simp [here]) (by simp [here]) (sound.stepClearDeqCell inside here step)
  | flushDeqCell => exact still (by simp [here]) (by simp [here]) (sound.stepFlushDeqCell inside here step)

/-- `enqueue()` takes a node that nobody has and stores it in its cell. -/
theorem Sound.enqueue (sound : Sound threadNum state queue) {node pData : Nat}
    (free : node ∉ state.used)
    (step : state.next threadNum (.enqueue thread node pData) = some after) :
    Goes threadNum state after queue 0 0 := by
  simp only [State.next] at step
  split at step
  swap
  · cases step
  next allowed =>
  obtain ⟨inside, idle⟩ := allowed
  cases step
  have fits := sound.fits thread
  rw [idle] at fits
  obtain ⟨empty, done⟩ := fits
  have enough : threadNum ≤ state.recoverNum := sound.working thread inside (by rw [idle]; rfl)
  have unplaced : Unplaced state.current state.persisted queue node :=
    { notBusy := fun busy => free (sound.used node (.inr (.inl busy)))
      notPersisted := fun busy => free (sound.used node (.inr (.inr busy)))
      notLinked := fun member => free (sound.used node (.inl member))
      cells := fun cell here => free (sound.known_of_working here
        (sound.all_recovered enough (sound.owner cell node here))) }
  have apart : Cell.deq thread ≠ .enq thread := nofun
  have places : ∀ cell other,
      In (state.current.write (.enqCell thread) (some node)) state.persisted cell other →
      cell = .enq thread ∧ other = node ∨ In state.current state.persisted cell other := by
    intro cell other here
    rcases In.of_write (show In (state.current.write (Cell.enq thread).address (some node)) _ _ _
      from here) with ⟨same, holds⟩ | before
    · exact .inl ⟨same, (Option.some.inj holds).symm⟩
    · exact .inr before
  refine ⟨queue, ?_, .inl rfl, rfl, rfl⟩
  exact
    { consistent := sound.consistent.storeCell (.of_empty empty) fun other same => by
        cases same
        exact unplaced
      shape := sound.shape.congr
        (fun other _ => state.current.write_cell_nextOf (.enq thread) (some node) other)
        (state.current.write_cell_head (.enq thread) _) (state.current.write_cell_tail (.enq thread) _)
      tail :=
        sound.tail.trans (state.current.write_cell_tail (.enq thread) _).symm
      used := fun other place => List.mem_cons_of_mem _ (sound.used other place)
      known := fun cell other here => by
        rcases places cell other here with ⟨-, rfl⟩ | before
        · exact .inl List.mem_cons_self
        · rw [State.goto_threads]
          by_cases own : cell.thread = thread
          · have known := sound.known_of_working before (by rw [own, idle]; exact nofun)
            exact .inl (List.mem_cons_of_mem _ known)
          · rw [Function.update_of_ne own]
            exact (sound.known cell other before).imp (List.mem_cons_of_mem _) id
      owner := fun cell other here => by
        rcases places cell other here with ⟨rfl, -⟩ | before
        · exact inside
        · exact sound.owner cell other before
      fits := fun other => by
        rw [State.goto_threads]
        by_cases same : other = thread
        · rw [same, Function.update_self]
          refine ⟨done.kept (KeptAt.storeCell apart _),
            state.current.write_cell_self (.enq thread) (some node), fun held here => ?_⟩
          rcases places _ _ here with ⟨-, rfl⟩ | before
          · exact ⟨unplaced.notBusy, unplaced.notPersisted⟩
          · exact Quiet.of_empty empty held before
        · have differs : Cell.enq other ≠ .enq thread := by simp [same]
          have differs' : Cell.deq other ≠ .enq thread := nofun
          rw [Function.update_of_ne same]
          exact (sound.fits other).kept (KeptAt.storeCell differs _) (KeptAt.storeCell differs' _)
            (.refl queue)
      working := fun other below _ => enough
      counted := by
        refine (congrArg Finset.card (recoveredThreads_update rfl ?_)).trans sound.counted
        rw [idle]
        exact ⟨fun _ => nofun, fun _ => nofun⟩ }

theorem Sound.dequeue (sound : Sound threadNum state queue)
    (step : state.next threadNum (.dequeue thread) = some after) :
    Goes threadNum state after queue 0 0 := by
  simp only [State.next] at step
  split at step
  · next allowed =>
    cases step
    have fits := sound.fits thread
    rw [allowed.2] at fits
    exact sound.goto allowed.1 (by rw [allowed.2]; rfl) ⟨fits.1, fits.2, trivial, trivial⟩
  · cases step

/-- Any cache line may get into NVM at any time. -/
theorem Sound.writeBack (sound : Sound threadNum state queue) (line : Line) :
    Goes threadNum state (state.flush line) queue 0 0 := by
  have moves := Moves.flush sound threadNum line
  refine ⟨queue, ?_, moves.evolves, rfl, rfl⟩
  exact
    { consistent := moves.consistent
      shape := moves.shape
      tail := moves.tail
      used := moves.used
      known := fun cell node here => sound.known cell node here.of_writeBack
      owner := fun cell node here => sound.owner cell node here.of_writeBack
      fits := fun other => (sound.fits other).kept (KeptAt.writeBack _ _ _ _)
        (KeptAt.writeBack _ _ _ _) (.refl queue)
      working := sound.working
      counted := sound.counted }

end Operations

end Pmwcas.MSQueueTest
