/-
This file shows that the machine of the queues over descriptors is simulated by the abstract queue.
Each step is described by its effect on the memory and the queue in it; the invariant says of each
thread what it knows of the queue and which node it has to link.
-/

import Pmwcas.MSQueueByPMWCas

namespace Pmwcas.MSQueueByPMWCas

open Transition LinkedList

/-! ### Effects -/

/-- The memory holds this queue. -/
def Shape (memory : Memory) (queue : Queue Nat) : Prop :=
  queue.Held (fun node => memory (.next node)) (memory .head) (memory .tail)

/-- What a step may do to the queue as its users see it. -/
inductive Event
  | link (node : Nat)
  | take (node : Nat)
deriving DecidableEq

/-- What an event does to the queue. A node is appended, or the head moves past the first node. -/
def Applies (before after : Queue Nat) : Option Event → Prop
  | none => after.order = before.order ∧ after.head = before.head
  | some (.link node) => after.order = before.order ++ [node] ∧ after.head = before.head
  | some (.take node) => after.order = before.order ∧ after.head = before.head + 1 ∧
    before.order[before.head]? = some node

/-- The effect of a step of a thread on the memory and the queue in it. -/
inductive Effect (memory : Memory) (queue : Queue Nat) (thread : Nat) :
    Option Event → Memory → Queue Nat → Prop
  | keep : Effect memory queue thread none memory queue
  | link (last node : Nat) (passed : queue.Passed last) (end_ : memory (.next last) = none) :
    Effect memory queue thread (some (.link node))
      (memory.dcas (.next last) (.enqCell thread) (some node) none)
      { queue with order := queue.order ++ [node] }
  | linkTail (last node : Nat) (passed : queue.Passed last) (end_ : memory (.next last) = none) :
    Effect memory queue thread (some (.link node))
      (((memory.write (.next last) (some node)).write .tail (some node)).write (.enqCell thread) none)
      { queue with order := queue.order ++ [node], tail := queue.tail + 1 }
  | take (first : Nat) (next : Option Nat) (ahead : queue.Ahead first next)
    (points : memory .head = some first) :
    Effect memory queue thread (some (.take first))
      (memory.dcas .head (.deqCell thread) next (some first)) { queue with head := queue.head + 1 }
  | moveTail (last next : Nat) (follows : queue.Follows last next)
    (points : memory .tail = some last) :
    Effect memory queue thread none (memory.write .tail (some next))
      { queue with tail := queue.tail + 1 }

/-- A node that is ready to be linked. -/
structure Fresh (memory : Memory) (queue : Queue Nat) (node : Nat) : Prop where
  new : node ∉ queue.order
  alone : memory (.next node) = none

theorem Memory.write_of_ne (memory : Memory) {address other : Address} (different : other ≠ address)
    (value : Option Nat) : memory.write address value other = memory other :=
  Function.update_of_ne different _ _

@[simp] theorem Memory.write_self (memory : Memory) (address : Address) (value : Option Nat) :
    memory.write address value address = value := by
  unfold Memory.write
  exact Function.update_self _ _ _

/-- The links after a node is linked. -/
theorem Memory.write_next (memory : Memory) (last : Nat) (value : Option Nat) :
    (fun node => memory.write (.next last) value (.next node)) =
      Function.update (fun node => memory (.next node)) last value := by
  funext node
  by_cases this : node = last
  · rw [this, Memory.write_self, Function.update_self]
  · rw [Function.update_of_ne this, memory.write_of_ne (by simp [this])]

section Effect

variable {memory memory' : Memory} {queue queue' : Queue Nat} {thread : Nat} {event : Option Event}

/-- Two memories with the same links, head and tail hold the same queue. -/
theorem Shape.congr (shape : Shape memory queue)
    (next : ∀ node ∈ queue.order, memory' (.next node) = memory (.next node))
    (head : memory' .head = memory .head) (tail : memory' .tail = memory .tail) :
    Shape memory' queue := by
  unfold Shape at *
  rw [head, tail]
  exact { shape with linked := shape.linked.congr next }

theorem Effect.le (effect : Effect memory queue thread event memory' queue') : queue.Le queue' := by
  cases effect with
  | keep => exact .refl queue
  | link => exact ⟨List.prefix_append _ _, Nat.le_refl _, Nat.le_refl _⟩
  | linkTail => exact ⟨List.prefix_append _ _, Nat.le_refl _, Nat.le_succ _⟩
  | take => exact ⟨List.prefix_refl _, Nat.le_succ _, Nat.le_refl _⟩
  | moveTail => exact ⟨List.prefix_refl _, Nat.le_refl _, Nat.le_succ _⟩

/-- A node is linked, and nothing else of the queue changes yet. -/
theorem Shape.link (shape : Shape memory queue) {last node : Nat} (passed : queue.Passed last)
    (end_ : memory (.next last) = none) (fresh : Fresh memory queue node) :
    Shape (memory.write (.next last) (some node)) { queue with order := queue.order ++ [node] } := by
  have held := Queue.Held.link shape passed end_ fresh.new fresh.alone
  unfold Shape
  rw [memory.write_next, memory.write_of_ne (by simp), memory.write_of_ne (by simp)]
  exact held

theorem Shape.moveTail (shape : Shape memory queue) {last next : Nat}
    (follows : queue.Follows last next) (points : memory .tail = some last) :
    Shape (memory.write .tail (some next)) { queue with tail := queue.tail + 1 } := by
  have held := Queue.Held.moveTail shape follows points
  unfold Shape
  rw [memory.write_of_ne (by simp), memory.write_self]
  exact { held with linked := held.linked.congr fun node _ => memory.write_of_ne (by simp) _ }

theorem Effect.shape (effect : Effect memory queue thread event memory' queue')
    (shape : Shape memory queue)
    (fresh : ∀ node, event = some (.link node) → Fresh memory queue node) :
    Shape memory' queue' ∧ Applies queue queue' event := by
  cases effect with
  | keep => exact ⟨shape, rfl, rfl⟩
  | link last node passed end_ =>
    have linked := shape.link passed end_ (fresh node rfl)
    exact ⟨linked.congr (fun _ _ => Memory.write_of_ne _ (by simp) _)
      (Memory.write_of_ne _ (by simp) _) (Memory.write_of_ne _ (by simp) _), rfl, rfl⟩
  | linkTail last node passed end_ =>
    have linked := shape.link passed end_ (fresh node rfl)
    have points := Queue.Held.passed_last shape passed end_
    obtain ⟨index, below, here⟩ := passed
    have length := shape.linked.last here end_
    have follows : Queue.Follows { queue with order := queue.order ++ [node] } last node := by
      refine ⟨index, below, index_append here _, ?_⟩
      rw [length, index_append_self]
    have moved := linked.moveTail follows ((Memory.write_of_ne _ (by simp) _).trans points)
    exact ⟨moved.congr (fun _ _ => Memory.write_of_ne _ (by simp) _)
      (Memory.write_of_ne _ (by simp) _) (Memory.write_of_ne _ (by simp) _), rfl, rfl⟩
  | take first next ahead points =>
    have held := Queue.Held.moveHead shape ahead points
    refine ⟨?_, rfl, rfl, ?_⟩
    · unfold Shape Memory.dcas
      rw [Memory.write_of_ne _ (by simp), Memory.write_self, Memory.write_of_ne _ (by simp),
        Memory.write_of_ne _ (by simp)]
      refine { held with linked := held.linked.congr fun node _ => ?_ }
      rw [Memory.write_of_ne _ (by simp), Memory.write_of_ne _ (by simp)]
    · rw [← Queue.Held.head shape, points]
  | moveTail last next follows points => exact ⟨shape.moveTail follows points, rfl, rfl⟩

/-- What a step does to the cells: a node that is linked leaves the cell of its thread, a node that is
taken is put into the cell of its thread, and no other cell changes. -/
def HandsOver (memory memory' : Memory) (thread : Nat) : Option Event → Prop
  | none => ∀ other, memory' (.enqCell other) = memory (.enqCell other) ∧
    memory' (.deqCell other) = memory (.deqCell other)
  | some (.link _) => memory' (.enqCell thread) = none ∧
    (∀ other, other ≠ thread → memory' (.enqCell other) = memory (.enqCell other)) ∧
    ∀ other, memory' (.deqCell other) = memory (.deqCell other)
  | some (.take node) => memory' (.deqCell thread) = some node ∧
    (∀ other, other ≠ thread → memory' (.deqCell other) = memory (.deqCell other)) ∧
    ∀ other, memory' (.enqCell other) = memory (.enqCell other)

theorem Effect.handsOver (effect : Effect memory queue thread event memory' queue') :
    HandsOver memory memory' thread event := by
  cases effect with
  | keep => exact fun other => ⟨rfl, rfl⟩
  | link last node =>
    refine ⟨Memory.write_self _ _ _, fun other different => ?_, fun other => ?_⟩
    · rw [Memory.dcas, Memory.write_of_ne _ (by simp [different]), Memory.write_of_ne _ (by simp)]
    · rw [Memory.dcas, Memory.write_of_ne _ (by simp), Memory.write_of_ne _ (by simp)]
  | linkTail last node =>
    refine ⟨Memory.write_self _ _ _, fun other different => ?_, fun other => ?_⟩
    · rw [Memory.write_of_ne _ (by simp [different]), Memory.write_of_ne _ (by simp),
        Memory.write_of_ne _ (by simp)]
    · rw [Memory.write_of_ne _ (by simp), Memory.write_of_ne _ (by simp),
        Memory.write_of_ne _ (by simp)]
  | take first next =>
    refine ⟨Memory.write_self _ _ _, fun other different => ?_, fun other => ?_⟩
    · rw [Memory.dcas, Memory.write_of_ne _ (by simp [different]), Memory.write_of_ne _ (by simp)]
    · rw [Memory.dcas, Memory.write_of_ne _ (by simp), Memory.write_of_ne _ (by simp)]
  | moveTail => exact fun other => ⟨Memory.write_of_ne _ (by simp) _, Memory.write_of_ne _ (by simp) _⟩

/-- The cell of a thread that has a node to link changes in no step of another one. -/
theorem HandsOver.enqCell (hands : HandsOver memory memory' thread event) {other : Nat}
    (different : other ≠ thread) : memory' (.enqCell other) = memory (.enqCell other) := by
  match event, hands with
  | none, hands => exact (hands other).1
  | some (.link _), hands => exact hands.2.1 other different
  | some (.take _), hands => exact hands.2.2 other

/-- A node that is ready to be linked stays so until it is linked. -/
theorem Effect.fresh_kept (effect : Effect memory queue thread event memory' queue') {node : Nat}
    (fresh : Fresh memory queue node) (other : event ≠ some (.link node)) :
    Fresh memory' queue' node := by
  obtain ⟨new, alone⟩ := fresh
  have notLast : ∀ last, queue.Passed last → Address.next node ≠ .next last := by
    rintro last passed same
    cases same
    exact new passed.mem
  have notAdded : ∀ added, event = some (.link added) → node ∉ queue.order ++ [added] := by
    intro added links member
    rw [List.mem_append, List.mem_singleton] at member
    rcases member with earlier | rfl
    · exact new earlier
    · exact other links
  cases effect with
  | keep => exact ⟨new, alone⟩
  | link last added passed end_ =>
    refine ⟨notAdded added rfl, ?_⟩
    rw [Memory.dcas, Memory.write_of_ne _ (by simp), Memory.write_of_ne _ (notLast last passed), alone]
  | linkTail last added passed end_ =>
    refine ⟨notAdded added rfl, ?_⟩
    rw [Memory.write_of_ne _ (by simp), Memory.write_of_ne _ (by simp),
      Memory.write_of_ne _ (notLast last passed), alone]
  | take =>
    refine ⟨new, ?_⟩
    rw [Memory.dcas, Memory.write_of_ne _ (by simp), Memory.write_of_ne _ (by simp), alone]
  | moveTail => exact ⟨new, (Memory.write_of_ne _ (by simp) _).trans alone⟩

end Effect

/-! ### What a thread knows -/

/-- What a thread inside `enq()` knows. -/
def EnqPc.Fits (queue : Queue Nat) (newNode : Nat) : EnqPc → Prop
  | .loadTail => True
  | .recheckTail last | .mwcas last | .loadNext last | .dcas last => queue.Passed last
  | .checkTail last next => queue.Passed last ∧ ∀ node, next = some node → queue.Follows last node
  | .exchangeTail last => queue.Follows last newNode
  | .exchangeBehind last next => queue.Follows last next

/-- What a thread inside `deq()` knows. -/
def DeqPc.Fits (queue : Queue Nat) : DeqPc → Prop
  | .loadHead | .flushCell => True
  | .loadTail first => queue.Reached first
  | .loadNext first last => queue.Between first last
  | .checkHead first last firstNext => queue.Read first last firstNext
  | .loadCell first firstNext | .mwcas first firstNext _ | .dcas first firstNext =>
    queue.Ahead first firstNext
  | .exchangeTail last firstNext => queue.Follows last firstNext

/-- What a thread knows of the queue. -/
def Pc.Fits (queue : Queue Nat) : Pc → Prop
  | .idle | .loadCell => True
  | .enq newNode pc => pc.Fits queue newNode
  | .deq pc => pc.Fits queue

theorem EnqPc.Fits.mono {before after : Queue Nat} (later : before.Le after) {newNode : Nat}
    {pc : EnqPc} (fits : pc.Fits before newNode) : pc.Fits after newNode := by
  cases pc with
  | loadTail => trivial
  | recheckTail | mwcas | loadNext | dcas => exact Queue.Passed.mono later fits
  | checkTail last next =>
    exact ⟨fits.1.mono later, fun node same => (fits.2 node same).mono later⟩
  | exchangeTail | exchangeBehind => exact Queue.Follows.mono later fits

theorem DeqPc.Fits.mono {before after : Queue Nat} (later : before.Le after) {pc : DeqPc}
    (fits : pc.Fits before) : pc.Fits after := by
  cases pc with
  | loadHead | flushCell => trivial
  | loadTail => exact Queue.Reached.mono later fits
  | loadNext => exact Queue.Between.mono later fits
  | checkHead => exact Queue.Read.mono later fits
  | loadCell | mwcas | dcas => exact Queue.Ahead.mono later fits
  | exchangeTail => exact Queue.Follows.mono later fits

theorem Pc.Fits.mono {before after : Queue Nat} (later : before.Le after) {pc : Pc}
    (fits : pc.Fits before) : pc.Fits after := by
  cases pc with
  | idle | loadCell => trivial
  | enq => exact EnqPc.Fits.mono later fits
  | deq => exact DeqPc.Fits.mono later fits

/-! ### The steps -/

/-- The event of a step of `enq()`. -/
def enqEvent (memory : Memory) (cell : Address) (newNode : Nat) : EnqPc → Option Event
  | .mwcas last =>
    if memory (.next last) = none ∧ memory .tail = some last ∧ memory cell = some newNode then
      some (.link newNode)
    else none
  | .dcas last => if memory (.next last) = none then some (.link newNode) else none
  | _ => none

/-- The event of a step of `deq()`. -/
def deqEvent (memory : Memory) (cell : Address) : DeqPc → Option Event
  | .mwcas first _ old =>
    if memory .head = some first ∧ memory cell = old then some (.take first) else none
  | .dcas first _ => if memory .head = some first then some (.take first) else none
  | _ => none

/-- `enq()` has not linked its node yet. -/
def EnqPc.Pending : EnqPc → Prop
  | .exchangeTail _ => False
  | _ => True

/-- What a step of `enq()` does about its node. -/
def EnqPc.Follows (event : Option Event) (newNode : Nat) (pc : EnqPc) : Option EnqPc → Prop
  | some following => (following.Pending → pc.Pending ∧ event = none) ∧
    (¬ following.Pending → pc.Pending ∧ event = some (.link newNode))
  | none => pc.Pending ∧ event = some (.link newNode) ∨ ¬ pc.Pending ∧ event = none

/-- `deq()` has found the queue empty. -/
def DeqPc.Empty : DeqPc → Prop
  | .checkHead _ _ firstNext => firstNext = none
  | .flushCell => True
  | _ => False

/-- What a step of `deq()` adds to its history. -/
def DeqPc.Follows (memory : Memory) (event : Option Event) (pc : DeqPc) : Option DeqPc → Prop
  | some following => event = none ∧ (following.Empty → pc.Empty ∨
      ∃ first last, pc = .loadNext first last ∧ memory (.next first) = none)
  | none => (∃ node, event = some (.take node)) ∨ event = none ∧ pc.Empty

section Steps

variable {variant : Variant} {memory after : Memory} {thread : Nat} {queue : Queue Nat}

/-- What a step of `enq()` does. -/
structure EnqMoves (memory : Memory) (thread newNode : Nat) (queue : Queue Nat) (pc : EnqPc)
    (after : Memory) (pc' : Option EnqPc) (queue' : Queue Nat) : Prop where
  effect : Effect memory queue thread (enqEvent memory (.enqCell thread) newNode pc) after queue'
  fits : ∀ following ∈ pc', following.Fits queue' newNode
  follows : pc.Follows (enqEvent memory (.enqCell thread) newNode pc) newNode pc'

/-- A step of `enq()` that only reads. -/
theorem EnqMoves.read {newNode : Nat} {pc following : EnqPc} (pending : pc.Pending)
    (still : following.Pending) (event : enqEvent memory (.enqCell thread) newNode pc = none)
    (fits : following.Fits queue newNode) :
    EnqMoves memory thread newNode queue pc memory (some following) queue := by
  refine ⟨?_, fun other same => ?_, ?_⟩
  · rw [event]
    exact .keep
  · cases same
    exact fits
  · exact ⟨fun _ => ⟨pending, event⟩, fun not => absurd still not⟩

/-- A plain `CompareExchange64` on the tail. -/
theorem exchangeTail_effect (memory : Memory) (thread : Nat) {last next : Nat}
    (follows : queue.Follows last next) :
    ∃ queue', Effect memory queue thread none
      (memory.compareExchange .tail (some next) (some last)) queue' := by
  unfold Memory.compareExchange
  split
  · next points => exact ⟨_, .moveTail last next follows points⟩
  · exact ⟨queue, .keep⟩

theorem stepEnq_moves {newNode : Nat} {pc : EnqPc} {pc' : Option EnqPc} (shape : Shape memory queue)
    (fits : pc.Fits queue newNode)
    (step : stepEnq variant memory (.enqCell thread) newNode pc = some (after, pc')) :
    ∃ queue', EnqMoves memory thread newNode queue pc after pc' queue' := by
  cases pc with
  | loadTail =>
    simp only [stepEnq, Option.map_eq_some_iff, Prod.mk.injEq] at step
    obtain ⟨last, points, rfl, rfl⟩ := step
    have passed : queue.Passed last := ⟨queue.tail, Nat.le_refl _, shape.tail.symm.trans points⟩
    refine ⟨queue, .read trivial ?_ rfl ?_⟩
    · split
      · trivial
      · trivial
    · split
      · exact passed
      · exact passed
  | recheckTail last =>
    simp only [stepEnq] at step
    split at step
    · cases step
      exact ⟨queue, .read trivial trivial rfl fits⟩
    · cases step
      exact ⟨queue, .read trivial trivial rfl trivial⟩
  | mwcas last =>
    simp only [stepEnq] at step
    split at step
    · next expected =>
      cases step
      have event : enqEvent memory (.enqCell thread) newNode (.mwcas last) = some (.link newNode) := by
        simp only [enqEvent, if_pos expected]
      refine ⟨{ queue with order := queue.order ++ [newNode], tail := queue.tail + 1 },
        ?_, fun following same => ?_, .inl ⟨trivial, event⟩⟩
      · rw [event]
        exact .linkTail last newNode fits expected.1
      · cases same
    · next other =>
      cases step
      refine ⟨queue, .read trivial trivial ?_ trivial⟩
      simp only [enqEvent, if_neg other]
  | loadNext last =>
    cases step
    exact ⟨queue, .read trivial trivial rfl
      ⟨fits, fun node behind => shape.linked.follows fits behind⟩⟩
  | checkTail last next =>
    simp only [stepEnq] at step
    split at step
    · cases next with
      | none =>
        cases step
        exact ⟨queue, .read trivial trivial rfl fits.1⟩
      | some next =>
        cases step
        exact ⟨queue, .read trivial trivial rfl (fits.2 next rfl)⟩
    · cases step
      exact ⟨queue, .read trivial trivial rfl trivial⟩
  | dcas last =>
    simp only [stepEnq] at step
    split at step
    · next end_ =>
      cases step
      have event : enqEvent memory (.enqCell thread) newNode (.dcas last) = some (.link newNode) := by
        simp only [enqEvent, if_pos end_]
      refine ⟨{ queue with order := queue.order ++ [newNode] }, ?_, fun following same => ?_,
        False.elim, fun _ => ⟨trivial, event⟩⟩
      · rw [event]
        exact .link last newNode fits end_
      · cases same
        obtain ⟨index, below, here⟩ := fits
        have length := shape.linked.last here end_
        refine ⟨index, below, index_append here _, ?_⟩
        rw [length, index_append_self]
    · next occupied =>
      cases step
      refine ⟨queue, .read trivial trivial ?_ trivial⟩
      simp only [enqEvent, if_neg occupied]
  | exchangeTail last =>
    cases step
    obtain ⟨queue', effect⟩ := exchangeTail_effect memory thread fits
    refine ⟨queue', effect, fun following same => ?_, .inr ⟨id, rfl⟩⟩
    cases same
  | exchangeBehind last next =>
    cases step
    obtain ⟨queue', effect⟩ := exchangeTail_effect memory thread fits
    refine ⟨queue', effect, fun following same => ?_, fun _ => ⟨trivial, rfl⟩,
      fun not => absurd trivial not⟩
    cases same
    trivial

/-- What a step of `deq()` does. -/
structure DeqMoves (memory : Memory) (thread : Nat) (queue : Queue Nat) (pc : DeqPc)
    (after : Memory) (pc' : Option DeqPc) (queue' : Queue Nat) : Prop where
  effect : Effect memory queue thread (deqEvent memory (.deqCell thread) pc) after queue'
  fits : ∀ following ∈ pc', following.Fits queue'
  follows : pc.Follows memory (deqEvent memory (.deqCell thread) pc) pc'

/-- A step of `deq()` that only reads. -/
theorem DeqMoves.read {pc following : DeqPc} (event : deqEvent memory (.deqCell thread) pc = none)
    (fits : following.Fits queue) (empty : following.Empty → pc.Empty ∨
      ∃ first last, pc = .loadNext first last ∧ memory (.next first) = none) :
    DeqMoves memory thread queue pc memory (some following) queue := by
  refine ⟨?_, fun other same => ?_, event, empty⟩
  · rw [event]
    exact .keep
  · cases same
    exact fits

theorem stepDeq_moves {pc : DeqPc} {pc' : Option DeqPc} (shape : Shape memory queue)
    (fits : pc.Fits queue) (step : stepDeq variant memory (.deqCell thread) pc = some (after, pc')) :
    ∃ queue', DeqMoves memory thread queue pc after pc' queue' := by
  cases pc with
  | loadHead =>
    simp only [stepDeq, Option.map_eq_some_iff, Prod.mk.injEq] at step
    obtain ⟨first, points, rfl, rfl⟩ := step
    exact ⟨queue, .read rfl ⟨queue.head, Nat.le_refl _, shape.head.symm.trans points⟩ False.elim⟩
  | loadTail first =>
    simp only [stepDeq, Option.map_eq_some_iff, Prod.mk.injEq] at step
    obtain ⟨last, points, rfl, rfl⟩ := step
    obtain ⟨index, below, here⟩ := fits
    exact ⟨queue, .read rfl ⟨index, below, queue.tail, Nat.le_refl _, below.trans shape.head_le, here,
      shape.tail.symm.trans points⟩ False.elim⟩
  | loadNext first last =>
    cases step
    exact ⟨queue, .read rfl (shape.linked.read fits) fun end_ => .inr ⟨first, last, rfl, end_⟩⟩
  | checkHead first last firstNext =>
    simp only [stepDeq] at step
    split at step
    · split at step
      · next equal =>
        subst equal
        cases firstNext with
        | none =>
          cases step
          split
          · refine ⟨queue, .keep, fun following same => ?_, .inr ⟨rfl, rfl⟩⟩
            cases same
          · exact ⟨queue, .read rfl trivial fun _ => .inl rfl⟩
        | some next =>
          cases step
          split
          · exact ⟨queue, .read rfl trivial False.elim⟩
          · exact ⟨queue, .read rfl (Queue.Read.follows fits) False.elim⟩
      · next different =>
        cases step
        split
        · exact ⟨queue, .read rfl (Queue.Read.ahead fits different) False.elim⟩
        · exact ⟨queue, .read rfl (Queue.Read.ahead fits different) False.elim⟩
    · cases step
      exact ⟨queue, .read rfl trivial False.elim⟩
  | loadCell first firstNext =>
    cases step
    exact ⟨queue, .read rfl fits False.elim⟩
  | mwcas first firstNext old =>
    simp only [stepDeq] at step
    split at step
    · next expected =>
      cases step
      have event : deqEvent memory (.deqCell thread) (.mwcas first firstNext old) =
          some (.take first) := by
        simp only [deqEvent, if_pos expected]
      refine ⟨{ queue with head := queue.head + 1 }, ?_, fun following same => ?_,
        .inl ⟨first, event⟩⟩
      · rw [event]
        exact .take first firstNext fits expected.1
      · cases same
    · next other =>
      cases step
      refine ⟨queue, .read ?_ trivial False.elim⟩
      simp only [deqEvent, if_neg other]
  | dcas first firstNext =>
    simp only [stepDeq] at step
    split at step
    · next points =>
      cases step
      have event : deqEvent memory (.deqCell thread) (.dcas first firstNext) = some (.take first) := by
        simp only [deqEvent, if_pos points]
      refine ⟨{ queue with head := queue.head + 1 }, ?_, fun following same => ?_,
        .inl ⟨first, event⟩⟩
      · rw [event]
        exact .take first firstNext fits points
      · cases same
    · next other =>
      cases step
      refine ⟨queue, .read ?_ trivial False.elim⟩
      simp only [deqEvent, if_neg other]
  | exchangeTail last firstNext =>
    cases step
    obtain ⟨queue', effect⟩ := exchangeTail_effect memory thread fits
    refine ⟨queue', effect, fun following same => ?_, rfl, False.elim⟩
    cases same
    trivial
  | flushCell =>
    cases step
    refine ⟨queue, .keep, fun following same => ?_, .inr ⟨rfl, trivial⟩⟩
    cases same

end Steps

/-! ### The invariant -/

/-- The thread has this node to link. -/
def Pc.Owns (memory : Memory) (thread node : Nat) : Pc → Prop
  | .loadCell => memory (.enqCell thread) = some node
  | .enq newNode pc => pc.Pending ∧ newNode = node
  | .idle | .deq _ => False

/-- The state of the machine and the queue it holds. -/
structure Sound (state : State) (queue : Queue Nat) : Prop where
  shape : Shape state.memory queue
  used : ∀ node ∈ queue.order, node ∈ state.used
  owns : ∀ thread node, (state.threads thread).Owns state.memory thread node →
    Fresh state.memory queue node ∧ node ∈ state.used ∧
      state.memory (.enqCell thread) = some node
  apart : ∀ one two node, (state.threads one).Owns state.memory one node →
    (state.threads two).Owns state.memory two node → one = two
  fits : ∀ thread, (state.threads thread).Fits queue

theorem Sound.start (sentinel : Nat) : Sound (.start sentinel) ⟨[sentinel], 0, 0⟩ where
  shape :=
    { linked := by
        refine ⟨List.nodup_singleton sentinel, fun index node here => ?_⟩
        have outside : [sentinel].length ≤ index + 1 := Nat.le_add_left 1 index
        rw [List.getElem?_eq_none outside]
        rfl
      head := rfl
      tail := rfl
      head_le := Nat.le_refl _
      tail_lt := Nat.zero_lt_one
      length_le := Nat.le_succ 1 }
  used _ member := member
  owns _ _ owns := owns.elim
  apart _ _ _ owns := owns.elim
  fits _ := trivial

/-- The event of a step of the system. -/
def State.event (state : State) : Action → Option Event
  | .step thread =>
    match state.threads thread with
    | .enq newNode pc => enqEvent state.memory (.enqCell thread) newNode pc
    | .deq pc => deqEvent state.memory (.deqCell thread) pc
    | _ => none
  | _ => none

theorem Pc.Owns.congr {memory memory' : Memory} {thread node : Nat} {pc : Pc}
    (owns : pc.Owns memory' thread node)
    (same : memory' (.enqCell thread) = memory (.enqCell thread)) : pc.Owns memory thread node := by
  cases pc with
  | idle | deq => exact owns
  | enq => exact owns
  | loadCell => exact same.symm.trans owns

section Preservation

variable {variant : Variant} {state after : State} {queue : Queue Nat}

/-- What a thread has to link after a step it had to link before. -/
theorem Sound.owned (sound : Sound state queue) {thread : Nat} {event : Option Event}
    {memory' : Memory} (hands : HandsOver state.memory memory' thread event) {pc : Pc}
    (own : ∀ node, event = some (.link node) →
      (state.threads thread).Owns state.memory thread node)
    (owns : ∀ node, pc.Owns memory' thread node →
      (state.threads thread).Owns state.memory thread node ∧ event = none)
    (other node : Nat) (owned : (Function.update state.threads thread pc other).Owns memory' other node) :
    (state.threads other).Owns state.memory other node ∧ event ≠ some (.link node) ∧
      memory' (.enqCell other) = state.memory (.enqCell other) := by
  by_cases same : other = thread
  · subst same
    rw [Function.update_self] at owned
    obtain ⟨before, none_⟩ := owns node owned
    rw [none_] at hands ⊢
    exact ⟨before, by simp, (hands other).1⟩
  · rw [Function.update_of_ne same] at owned
    have kept := hands.enqCell same
    have before := owned.congr kept
    refine ⟨before, fun links => same ?_, kept⟩
    exact sound.apart other thread node before (own node links)

/-- A step of a thread inside a call. -/
theorem Sound.effect (sound : Sound state queue) {thread : Nat} {event : Option Event}
    {memory' : Memory} {queue' : Queue Nat}
    (effect : Effect state.memory queue thread event memory' queue') {pc : Pc}
    (own : ∀ node, event = some (.link node) →
      (state.threads thread).Owns state.memory thread node)
    (fits : pc.Fits queue')
    (owns : ∀ node, pc.Owns memory' thread node →
      (state.threads thread).Owns state.memory thread node ∧ event = none) :
    Sound ({ state with memory := memory' }.goto thread pc) queue' ∧ Applies queue queue' event := by
  obtain ⟨shape, applies⟩ := effect.shape sound.shape fun node links =>
    (sound.owns thread node (own node links)).1
  have owned := sound.owned effect.handsOver own owns
  have members : ∀ node ∈ queue'.order, node ∈ queue.order ∨ event = some (.link node) := by
    intro node member
    match event, applies with
    | none, applies => exact .inl (applies.1 ▸ member)
    | some (.take _), applies => exact .inl (applies.1 ▸ member)
    | some (.link added), applies =>
      rw [applies.1, List.mem_append, List.mem_singleton] at member
      rcases member with earlier | rfl
      · exact .inl earlier
      · exact .inr rfl
  refine ⟨?_, applies⟩
  exact
    { shape := shape
      used := fun node member => by
        rcases members node member with earlier | links
        · exact sound.used node earlier
        · exact (sound.owns thread node (own node links)).2.1
      owns := fun other node here => by
        obtain ⟨before, notLinked, kept⟩ := owned other node here
        obtain ⟨ready, used, cell⟩ := sound.owns other node before
        exact ⟨effect.fresh_kept ready notLinked, used, kept.trans cell⟩
      apart := fun one two node first second =>
        sound.apart one two node (owned one node first).1 (owned two node second).1
      fits := fun other => by
        rw [State.goto_threads]
        by_cases same : other = thread
        · rw [same, Function.update_self]
          exact fits
        · rw [Function.update_of_ne same]
          exact (sound.fits other).mono effect.le }

/-- The three kinds of steps of a thread inside a call. -/
inductive ThreadSteps (variant : Variant) (state : State) (thread : Nat) : Memory → Pc → Prop
  | load (newNode : Nat) (pc : state.threads thread = .loadCell)
    (cell : state.memory (.enqCell thread) = some newNode) :
    ThreadSteps variant state thread state.memory (.enq newNode .loadTail)
  | enq (newNode : Nat) (enqPc : EnqPc) (memory : Memory) (following : Option EnqPc)
    (pc : state.threads thread = .enq newNode enqPc)
    (step : stepEnq variant state.memory (.enqCell thread) newNode enqPc =
      some (memory, following)) :
    ThreadSteps variant state thread memory (.afterEnq newNode following)
  | deq (deqPc : DeqPc) (memory : Memory) (following : Option DeqPc)
    (pc : state.threads thread = .deq deqPc)
    (step : stepDeq variant state.memory (.deqCell thread) deqPc = some (memory, following)) :
    ThreadSteps variant state thread memory (.afterDeq following)

theorem stepThread_cases {thread : Nat} (step : state.stepThread variant thread = some after) :
    ∃ memory pc, ThreadSteps variant state thread memory pc ∧
      after = { state with memory := memory }.goto thread pc := by
  unfold State.stepThread at step
  split at step
  · cases step
  · next pc =>
    simp only [Option.map_eq_some_iff] at step
    obtain ⟨newNode, cell, rfl⟩ := step
    exact ⟨_, _, .load newNode pc cell, rfl⟩
  · next newNode enqPc pc =>
    simp only [Option.map_eq_some_iff] at step
    obtain ⟨⟨memory, following⟩, step, rfl⟩ := step
    exact ⟨_, _, .enq newNode enqPc memory following pc step, rfl⟩
  · next deqPc pc =>
    simp only [Option.map_eq_some_iff] at step
    obtain ⟨⟨memory, following⟩, step, rfl⟩ := step
    exact ⟨_, _, .deq deqPc memory following pc step, rfl⟩

/-- What a step leaves: the queue has done what the step's event says, and a step of a thread has
handed its node over. -/
structure Moves (state after : State) (action : Action) (queue queue' : Queue Nat) : Prop where
  sound : Sound after queue'
  le : queue.Le queue'
  applies : Applies queue queue' (state.event action)
  hands : ∀ thread, action = .step thread →
    HandsOver state.memory after.memory thread (state.event action)
  own : ∀ thread node, action = .step thread → state.event action = some (.link node) →
    state.memory (.enqCell thread) = some node

theorem Sound.enq (sound : Sound state queue) {thread node : Nat}
    (step : state.next variant (.enq thread node) = some after) :
    Moves state after (.enq thread node) queue queue := by
  simp only [State.next] at step
  split at step
  · next allowed =>
    obtain ⟨-, new⟩ := allowed
    cases step
    have isNot : ∀ other ∈ state.used, other ≠ node := by
      rintro other member rfl
      exact new member
    have nextKept : ∀ other, other ≠ node →
        state.memory.prepare thread node (.next other) = state.memory (.next other) := by
      intro other different
      rw [Memory.prepare, Memory.write_of_ne _ (by simp [different]), Memory.write_of_ne _ (by simp)]
    have enqKept : ∀ other, other ≠ thread →
        state.memory.prepare thread node (.enqCell other) = state.memory (.enqCell other) := by
      intro other different
      rw [Memory.prepare, Memory.write_of_ne _ (by simp), Memory.write_of_ne _ (by simp [different])]
    have cell : state.memory.prepare thread node (.enqCell thread) = some node := by
      rw [Memory.prepare, Memory.write_of_ne _ (by simp), Memory.write_self]
    have owned : ∀ other owned,
        (Function.update state.threads thread .loadCell other).Owns
          (state.memory.prepare thread node) other owned →
        other = thread ∧ owned = node ∨
          other ≠ thread ∧ (state.threads other).Owns state.memory other owned := by
      intro other owned owns
      by_cases same : other = thread
      · rw [same, Function.update_self] at owns
        exact .inl ⟨same, Option.some.inj (owns.symm.trans cell)⟩
      · rw [Function.update_of_ne same] at owns
        exact .inr ⟨same, owns.congr (enqKept other same)⟩
    refine ⟨?_, .refl queue, ⟨rfl, rfl⟩, nofun, nofun⟩
    exact
      { shape := by
          refine sound.shape.congr
            (fun other member => nextKept other (isNot other (sound.used other member))) ?_ ?_
          · show state.memory.prepare thread node .head = state.memory .head
            rw [Memory.prepare, Memory.write_of_ne _ (by simp), Memory.write_of_ne _ (by simp)]
          · show state.memory.prepare thread node .tail = state.memory .tail
            rw [Memory.prepare, Memory.write_of_ne _ (by simp), Memory.write_of_ne _ (by simp)]
        used := fun other member => List.mem_cons_of_mem _ (sound.used other member)
        owns := fun other newNode owns => by
          rcases owned other newNode owns with ⟨rfl, rfl⟩ | ⟨different, before⟩
          · exact ⟨⟨fun member => new (sound.used _ member), Memory.write_self _ _ _⟩,
              List.mem_cons_self, cell⟩
          · obtain ⟨fresh, used, before⟩ := sound.owns other newNode before
            exact ⟨⟨fresh.new, (nextKept newNode (isNot newNode used)).trans fresh.alone⟩,
              List.mem_cons_of_mem _ used, (enqKept other different).trans before⟩
        apart := fun one two newNode first second => by
          rcases owned one newNode first with ⟨oneSame, new₁⟩ | ⟨-, before₁⟩
          · rcases owned two newNode second with ⟨twoSame, -⟩ | ⟨-, before₂⟩
            · rw [oneSame, twoSame]
            · exact absurd (sound.owns two newNode before₂).2.1 (new₁ ▸ new)
          · rcases owned two newNode second with ⟨-, new₂⟩ | ⟨-, before₂⟩
            · exact absurd (sound.owns one newNode before₁).2.1 (new₂ ▸ new)
            · exact sound.apart one two newNode before₁ before₂
        fits := fun other => by
          rw [State.goto_threads]
          by_cases same : other = thread
          · rw [same, Function.update_self]
            trivial
          · rw [Function.update_of_ne same]
            exact sound.fits other }
  · cases step

/-- A thread stores a value in its cell for `deq()`. -/
theorem Sound.setCell (sound : Sound state queue) (thread : Nat) (value : Option Nat) :
    Sound { state with memory := state.memory.write (.deqCell thread) value } queue := by
  have next : ∀ node, state.memory.write (.deqCell thread) value (.next node) =
      state.memory (.next node) := fun node => Memory.write_of_ne _ (by simp) _
  have enqCell : ∀ other, state.memory.write (.deqCell thread) value (.enqCell other) =
      state.memory (.enqCell other) := fun other => Memory.write_of_ne _ (by simp) _
  have head : state.memory.write (.deqCell thread) value .head = state.memory .head :=
    Memory.write_of_ne _ (by simp) _
  have tail : state.memory.write (.deqCell thread) value .tail = state.memory .tail :=
    Memory.write_of_ne _ (by simp) _
  exact
    { shape := sound.shape.congr (fun node _ => next node) head tail
      used := sound.used
      owns := fun other node owns => by
        obtain ⟨fresh, used, cell⟩ := sound.owns other node (owns.congr (enqCell other))
        exact ⟨⟨fresh.new, (next node).trans fresh.alone⟩, used, (enqCell other).trans cell⟩
      apart := fun one two node first second => sound.apart one two node
        (first.congr (enqCell one)) (second.congr (enqCell two))
      fits := sound.fits }

theorem Sound.stepThread (sound : Sound state queue) {thread : Nat}
    (step : state.stepThread variant thread = some after) :
    ∃ queue', Moves state after (.step thread) queue queue' := by
  obtain ⟨memory, pc, steps, rfl⟩ := stepThread_cases step
  have fits := sound.fits thread
  have assemble : ∀ queue' : Queue Nat,
      Effect state.memory queue thread (state.event (.step thread)) memory queue' →
      (∀ node, state.event (.step thread) = some (.link node) →
        (state.threads thread).Owns state.memory thread node) → pc.Fits queue' →
      (∀ node, pc.Owns memory thread node → (state.threads thread).Owns state.memory thread node ∧
        state.event (.step thread) = none) →
      ∃ queue', Moves state ({ state with memory := memory }.goto thread pc) (.step thread) queue
        queue' := by
    intro queue' effect own fits owns
    obtain ⟨after, applies⟩ := sound.effect effect own fits owns
    refine ⟨queue', after, effect.le, applies, fun acting same => ?_, fun acting node same links => ?_⟩
    · cases same
      exact effect.handsOver
    · cases same
      exact (sound.owns thread node (own node links)).2.2
  clear step
  cases steps with
  | load newNode here cell =>
    have event : state.event (.step thread) = none := by simp only [State.event, here]
    refine assemble queue ?_ (fun node links => ?_) trivial fun node owned => ?_
    · rw [event]
      exact .keep
    · rw [event] at links
      cases links
    · obtain ⟨-, rfl⟩ := owned
      rw [here]
      exact ⟨cell, event⟩
  | enq newNode enqPc memory following here step =>
    rw [here] at fits
    have event : state.event (.step thread) =
        enqEvent state.memory (.enqCell thread) newNode enqPc := by
      simp only [State.event, here]
    obtain ⟨queue', moves⟩ := stepEnq_moves sound.shape fits step
    refine assemble queue' (event ▸ moves.effect) (fun node links => ?_) ?_ fun node owned => ?_
    · rw [event] at links
      have follows := moves.follows
      rw [here]
      cases following with
      | none =>
        rcases follows with ⟨pending, links'⟩ | ⟨-, none_⟩
        · rw [links'] at links
          cases links
          exact ⟨pending, rfl⟩
        · rw [none_] at links
          cases links
      | some following =>
        by_cases still : following.Pending
        · rw [(follows.1 still).2] at links
          cases links
        · obtain ⟨pending, links'⟩ := follows.2 still
          rw [links'] at links
          cases links
          exact ⟨pending, rfl⟩
    · cases following with
      | none => trivial
      | some following => exact moves.fits following rfl
    · cases following with
      | none => exact owned.elim
      | some following =>
        obtain ⟨pending, rfl⟩ := owned
        obtain ⟨before, none_⟩ := moves.follows.1 pending
        rw [here]
        exact ⟨⟨before, rfl⟩, event.trans none_⟩
  | deq deqPc memory following here step =>
    rw [here] at fits
    have event : state.event (.step thread) = deqEvent state.memory (.deqCell thread) deqPc := by
      simp only [State.event, here]
    obtain ⟨queue', moves⟩ := stepDeq_moves sound.shape fits step
    refine assemble queue' (event ▸ moves.effect) (fun node links => ?_) ?_ fun node owned => ?_
    · rw [event] at links
      have follows := moves.follows
      cases following with
      | none =>
        rcases follows with ⟨taken, takes⟩ | ⟨none_, -⟩
        · rw [takes] at links
          cases links
        · rw [none_] at links
          cases links
      | some following =>
        rw [follows.1] at links
        cases links
    · cases following with
      | none => trivial
      | some following => exact moves.fits following rfl
    · cases following with
      | none | some => exact owned.elim

/-- Every step of the machine is one of the abstract queue. -/
theorem Sound.next (sound : Sound state queue) {action : Action}
    (step : state.next variant action = some after) :
    ∃ queue', Moves state after action queue queue' := by
  cases action with
  | enq thread node => exact ⟨queue, sound.enq step⟩
  | setCell thread value =>
    simp only [State.next] at step
    split at step
    · cases step
      exact ⟨queue, sound.setCell thread value, .refl queue, ⟨rfl, rfl⟩, nofun, nofun⟩
    · cases step
  | deq thread =>
    simp only [State.next] at step
    split at step
    · cases step
      have effect : Effect state.memory queue thread none state.memory queue := .keep
      have fits : (Pc.deq .loadHead).Fits queue := trivial
      obtain ⟨after, -⟩ := sound.effect effect nofun fits nofun
      exact ⟨queue, after, .refl queue, ⟨rfl, rfl⟩, nofun, nofun⟩
    · cases step
  | step thread => exact sound.stepThread step

end Preservation

end Pmwcas.MSQueueByPMWCas
