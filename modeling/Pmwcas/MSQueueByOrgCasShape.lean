/-
This file is the invariant of the queue over plain `CompareExchange64`. The abstract queue is the
list of the nodes in the order in which they were linked, with three places in it: where `*phead_`
and `*ptail_` point, and how many nodes are marked. Nodes are appended and the places only grow, so
what a thread has read about them stays true in this form however old it is.
-/

import Pmwcas.MSQueueByOrgCas

namespace Pmwcas.MSQueueByOrgCas

open Transition LinkedList

/-! ### The abstract queue -/

/-- The linked nodes, the places of head and tail, and the number of nodes that are marked. -/
structure View extends Queue Nat where
  marked : Nat

/-- The memory holds this queue. Head, mark and tail follow each other in this order, the marked
nodes are the first ones, and at most one of them is not before the head. -/
structure Shape (memory : Address → Option Nat) (view : View) : Prop extends
    view.toQueue.Held (fun node => memory (.next node)) (memory .head) (memory .tail) where
  marks : ∀ index node, view.order[index]? = some node →
    (memory (.delThreadIndex node) ≠ none ↔ index < view.marked)
  head_le_marked : view.head ≤ view.marked
  marked_le_head : view.marked ≤ view.head + 1
  marked_le : view.marked ≤ view.tail

/-- The queue has grown and its places have moved on. -/
structure View.Le (before after : View) : Prop extends before.toQueue.Le after.toQueue where
  marked : before.marked ≤ after.marked

theorem View.Le.refl (view : View) : view.Le view :=
  ⟨.refl view.toQueue, Nat.le_refl _⟩

theorem View.Le.trans {first second third : View} (one : first.Le second) (two : second.Le third) :
    first.Le third :=
  ⟨one.toLe.trans two.toLe, one.marked.trans two.marked⟩

/-! ### What a thread knows -/

/-- As `Ahead`, and the node is marked. -/
def View.Taken (view : View) (first : Nat) (next : Option Nat) : Prop :=
  ∃ index ≤ view.head, ∃ node, index < view.tail ∧ index < view.marked ∧
    view.order[index]? = some first ∧ view.order[index + 1]? = some node ∧ next = some node

theorem View.Taken.mono {before after : View} (later : before.Le after) {first : Nat}
    {next : Option Nat} (taken : before.Taken first next) : after.Taken first next := by
  obtain ⟨index, below, node, inside, marked, here, there, same⟩ := taken
  exact ⟨index, below.trans later.head, node, Nat.lt_of_lt_of_le inside later.tail,
    Nat.lt_of_lt_of_le marked later.marked, index_of_longer later.order here,
    index_of_longer later.order there, same⟩

theorem View.Taken.ahead {view : View} {first : Nat} {next : Option Nat}
    (taken : view.Taken first next) : view.Ahead first next := by
  obtain ⟨index, below, node, inside, -, rest⟩ := taken
  exact ⟨index, below, node, inside, rest⟩

/-- What a thread inside `enq()` knows. -/
def EnqPc.Fits (view : View) (newNode : Nat) : EnqPc → Prop
  | .loadTail => True
  | .loadNext last | .exchangeNext last => view.Passed last
  | .checkTail last next => view.Passed last ∧ ∀ node, next = some node → view.Follows last node
  | .flushNext last | .clearCell last | .flushCell last | .exchangeTail last =>
    view.Follows last newNode
  | .flushBehind last next | .exchangeBehind last next => view.Follows last next

/-- What a thread inside `deq()` knows. -/
def DeqPc.Fits (view : View) : DeqPc → Prop
  | .loadHead | .clearCell | .flushClear => True
  | .loadTail first => view.Reached first
  | .loadNext first last => ∃ node, last = some node ∧ view.Between first node
  | .checkHead first last next => ∃ node, last = some node ∧ view.Read first node next
  | .flushLast last next | .exchangeTail last next => view.Follows last next
  | .loadDel first next | .storeCell first next | .flushCell first next
  | .exchangeDel first next => view.Ahead first next
  | .checkMarked first next | .flushMarked first next | .recheckHead first next
  | .exchangeHead first next | .checkLost first next | .flushDel first next
  | .checkWon first next | .exchangeWon first next => view.Taken first next

/-- What a thread knows of the queue. -/
def Pc.Fits (view : View) : Pc → Prop
  | .idle _ | .loadCell _ => True
  | .enq newNode _ pc => pc.Fits view newNode
  | .deq _ _ pc => pc.Fits view

theorem EnqPc.Fits.mono {before after : View} (later : before.Le after) {newNode : Nat} {pc : EnqPc}
    (fits : pc.Fits before newNode) : pc.Fits after newNode := by
  cases pc with
  | loadTail => trivial
  | loadNext | exchangeNext => exact Queue.Passed.mono later.toLe fits
  | checkTail last next =>
    exact ⟨fits.1.mono later.toLe, fun node same => (fits.2 node same).mono later.toLe⟩
  | flushNext | clearCell | flushCell | exchangeTail | flushBehind | exchangeBehind =>
    exact Queue.Follows.mono later.toLe fits

theorem DeqPc.Fits.mono {before after : View} (later : before.Le after) {pc : DeqPc}
    (fits : pc.Fits before) : pc.Fits after := by
  cases pc with
  | loadHead | clearCell | flushClear => trivial
  | loadTail => exact Queue.Reached.mono later.toLe fits
  | loadNext =>
    obtain ⟨node, same, between⟩ := fits
    exact ⟨node, same, between.mono later.toLe⟩
  | checkHead =>
    obtain ⟨node, same, read⟩ := fits
    exact ⟨node, same, read.mono later.toLe⟩
  | flushLast | exchangeTail => exact Queue.Follows.mono later.toLe fits
  | loadDel | storeCell | flushCell | exchangeDel => exact Queue.Ahead.mono later.toLe fits
  | checkMarked | flushMarked | recheckHead | exchangeHead | checkLost | flushDel | checkWon
  | exchangeWon => exact View.Taken.mono later fits

theorem Pc.Fits.mono {before after : View} (later : before.Le after) {pc : Pc}
    (fits : pc.Fits before) : pc.Fits after := by
  cases pc with
  | idle | loadCell => trivial
  | enq => exact EnqPc.Fits.mono later fits
  | deq => exact DeqPc.Fits.mono later fits

/-! ### The steps on the shape -/

section Shape

variable {memory : Address → Option Nat} {view : View}

theorem Shape.congr {memory' : Address → Option Nat} (shape : Shape memory view)
    (head : memory' .head = memory .head) (tail : memory' .tail = memory .tail)
    (next : ∀ node ∈ view.order, memory' (.next node) = memory (.next node))
    (del : ∀ node ∈ view.order, memory' (.delThreadIndex node) = memory (.delThreadIndex node)) :
    Shape memory' view :=
  { shape with
    linked := shape.linked.congr next
    head := head.trans shape.head
    tail := tail.trans shape.tail
    marks := fun index node here => by
      rw [del node (mem_of_index here)]
      exact shape.marks index node here }

/-- The links after a node is linked. -/
theorem update_next (memory : Address → Option Nat) (last : Nat) (value : Option Nat) :
    (fun node => Function.update memory (.next last) value (.next node)) =
      Function.update (fun node => memory (.next node)) last value := by
  funext node
  by_cases this : node = last
  · rw [this, Function.update_self, Function.update_self]
  · rw [Function.update_of_ne this, Function.update_of_ne fun equal => this (by injection equal)]

/-- A node is linked: it becomes the last one, behind the node the tail points to. -/
theorem Shape.link (shape : Shape memory view) {last node : Nat} (passed : view.Passed last)
    (end_ : memory (.next last) = none) (new : node ∉ view.order)
    (alone : memory (.next node) = none) (unmarked : memory (.delThreadIndex node) = none) :
    Shape (Function.update memory (.next last) (some node))
      { view with order := view.order ++ [node] } := by
  have held := shape.toHeld.link passed end_ new alone
  rw [← update_next] at held
  refine
    { linked := held.linked
      head := ?_
      tail := ?_
      head_le := held.head_le
      tail_lt := held.tail_lt
      length_le := held.length_le
      marks := fun place other there => ?_
      head_le_marked := shape.head_le_marked
      marked_le_head := shape.marked_le_head
      marked_le := shape.marked_le }
  · rw [Function.update_of_ne (by simp)]
    exact held.head
  · rw [Function.update_of_ne (by simp)]
    exact held.tail
  · rw [Function.update_of_ne (by simp)]
    rcases index_append_singleton there with earlier | ⟨rfl, rfl⟩
    · exact shape.marks place other earlier
    · have unmarkedPlace : ¬ view.order.length < view.marked := by
        have := shape.marked_le
        have := shape.tail_lt
        omega
      simp only [unmarked, ne_eq, not_true_eq_false, unmarkedPlace]

/-- A node is marked: it is the first one that was not. -/
theorem Shape.mark (shape : Shape memory view) {first : Nat} {next : Option Nat}
    (ahead : view.Ahead first next) (unmarked : memory (.delThreadIndex first) = none)
    (threadIndex : Nat) :
    view.order[view.marked]? = some first ∧
      Shape (Function.update memory (.delThreadIndex first) (some threadIndex))
        { view with marked := view.marked + 1 } := by
  obtain ⟨index, below, node, inside, here, -⟩ := ahead
  have notMarked : ¬ index < view.marked := by
    intro marked
    exact (shape.marks index first here).2 marked unmarked
  have same : index = view.marked := by
    have := shape.head_le_marked
    omega
  rw [same] at here inside
  refine ⟨here,
    { linked := ?_
      head := ?_
      tail := ?_
      head_le := shape.head_le
      tail_lt := shape.tail_lt
      length_le := shape.length_le
      marks := fun place other there => ?_
      head_le_marked := Nat.le_succ_of_le shape.head_le_marked
      marked_le_head := Nat.succ_le_succ (same ▸ below)
      marked_le := inside }⟩
  · exact shape.linked.congr fun node _ => Function.update_of_ne (by simp) _ _
  · rw [Function.update_of_ne (by simp), shape.head]
  · rw [Function.update_of_ne (by simp), shape.tail]
  · by_cases this : other = first
    · rw [this] at there ⊢
      have place_eq := shape.linked.index_unique there here
      rw [Function.update_self, place_eq]
      simp
    · have different : place ≠ view.marked := by
        intro equal
        rw [equal, here] at there
        cases there
        exact this rfl
      rw [Function.update_of_ne (by simp [this]), shape.marks place other there]
      show place < view.marked ↔ place < view.marked + 1
      omega

/-- The tail moves to the next node. -/
theorem Shape.moveTail (shape : Shape memory view) {last next : Nat}
    (follows : view.Follows last next) (points : memory .tail = some last) :
    Shape (Function.update memory .tail (some next)) { view with tail := view.tail + 1 } := by
  have held := shape.toHeld.moveTail follows points
  refine
    { linked := shape.linked.congr fun node _ => Function.update_of_ne (by simp) _ _
      head := ?_
      tail := ?_
      head_le := held.head_le
      tail_lt := held.tail_lt
      length_le := held.length_le
      marks := fun place other at_ => ?_
      head_le_marked := shape.head_le_marked
      marked_le_head := shape.marked_le_head
      marked_le := Nat.le_succ_of_le shape.marked_le }
  · rw [Function.update_of_ne (by simp), shape.head]
  · rw [Function.update_self]
    exact held.tail
  · rw [Function.update_of_ne (by simp)]
    exact shape.marks place other at_

/-- The head moves past a marked node. -/
theorem Shape.moveHead (shape : Shape memory view) {first : Nat} {next : Option Nat}
    (taken : view.Taken first next) (points : memory .head = some first) :
    Shape (Function.update memory .head next) { view with head := view.head + 1 } := by
  have held := shape.toHeld.moveHead taken.ahead points
  obtain ⟨index, below, node, inside, marked, here, there, same⟩ := taken
  obtain rfl := shape.head_index points here
  refine
    { linked := shape.linked.congr fun node _ => Function.update_of_ne (by simp) _ _
      head := ?_
      tail := ?_
      head_le := held.head_le
      tail_lt := held.tail_lt
      length_le := held.length_le
      marks := fun place other at_ => ?_
      head_le_marked := marked
      marked_le_head := Nat.le_succ_of_le shape.marked_le_head
      marked_le := shape.marked_le }
  · rw [Function.update_self]
    exact held.head
  · rw [Function.update_of_ne (by simp), shape.tail]
  · rw [Function.update_of_ne (by simp)]
    exact shape.marks place other at_

/-- The list has one unmarked node if the node that the head has been at is the last one. -/
theorem Shape.one_unmarked (shape : Shape memory view) {first : Nat} (reached : view.Reached first)
    (end_ : memory (.next first) = none) : view.marked + 1 = view.order.length := by
  obtain ⟨last, -⟩ := shape.toHeld.last reached end_
  have head := shape.head_le_marked
  have marked := shape.marked_le
  have tail := shape.tail_lt
  omega

/-- A node whose mark was seen. -/
theorem Shape.taken (shape : Shape memory view) {first : Nat} {next : Option Nat}
    (ahead : view.Ahead first next) (marked : memory (.delThreadIndex first) ≠ none) :
    view.Taken first next := by
  obtain ⟨index, below, node, inside, here, rest⟩ := ahead
  exact ⟨index, below, node, inside, (shape.marks index first here).1 marked, here, rest⟩

end Shape

/-! ### What a step does to the queue -/

/-- What a step may do to the queue as its users see it. -/
inductive Event
  | link (node : Nat)
  | mark (node : Nat)
deriving DecidableEq

/-- The effect of a step of a thread with this cell on the memory and the queue in it. -/
inductive Effect (memory : Address → Option Nat) (view : View) (cell : Address) :
    Option Event → (Address → Option Nat) → View → Prop
  | keep : Effect memory view cell none memory view
  | cell (value : Option Nat) :
    Effect memory view cell none (Function.update memory cell value) view
  | link (last node : Nat) (passed : view.Passed last) (end_ : memory (.next last) = none) :
    Effect memory view cell (some (.link node)) (Function.update memory (.next last) (some node))
      { view with order := view.order ++ [node] }
  | mark (first : Nat) (next : Option Nat) (threadIndex : Nat) (ahead : view.Ahead first next)
    (unmarked : memory (.delThreadIndex first) = none) :
    Effect memory view cell (some (.mark first))
      (Function.update memory (.delThreadIndex first) (some threadIndex))
      { view with marked := view.marked + 1 }
  | moveTail (last next : Nat) (follows : view.Follows last next)
    (points : memory .tail = some last) :
    Effect memory view cell none (Function.update memory .tail (some next))
      { view with tail := view.tail + 1 }
  | moveHead (first : Nat) (next : Option Nat) (taken : view.Taken first next)
    (points : memory .head = some first) :
    Effect memory view cell none (Function.update memory .head next)
      { view with head := view.head + 1 }

/-- A node that is ready to be linked. -/
structure Fresh (memory : Address → Option Nat) (view : View) (node : Nat) : Prop where
  new : node ∉ view.order
  alone : memory (.next node) = none
  unmarked : memory (.delThreadIndex node) = none

/-- What an event does to the queue. A node is appended, or the first node that is not marked is
marked. -/
def View.Applies (before after : View) : Option Event → Prop
  | none => after.order = before.order ∧ after.marked = before.marked
  | some (.link node) => after.order = before.order ++ [node] ∧ after.marked = before.marked
  | some (.mark node) => after.order = before.order ∧ after.marked = before.marked + 1 ∧
    before.order[before.marked]? = some node

/-- The word is a cell of a thread. -/
def Address.IsCell : Address → Prop
  | .enqCell _ | .deqCell _ => True
  | _ => False

theorem update_cell (memory : Address → Option Nat) {cell : Address} (isCell : cell.IsCell)
    (value : Option Nat) (address : Address) (other : ¬ address.IsCell) :
    Function.update memory cell value address = memory address := by
  refine Function.update_of_ne ?_ _ _
  rintro rfl
  exact other isCell

section Effect

variable {memory memory' : Address → Option Nat} {view view' : View} {cell : Address}
  {event : Option Event}

theorem Effect.le (effect : Effect memory view cell event memory' view') : view.Le view' := by
  cases effect with
  | keep | cell => exact .refl view
  | link => exact ⟨⟨List.prefix_append _ _, Nat.le_refl _, Nat.le_refl _⟩, Nat.le_refl _⟩
  | mark => exact ⟨.refl _, Nat.le_succ _⟩
  | moveTail => exact ⟨⟨List.prefix_refl _, Nat.le_refl _, Nat.le_succ _⟩, Nat.le_refl _⟩
  | moveHead => exact ⟨⟨List.prefix_refl _, Nat.le_succ _, Nat.le_refl _⟩, Nat.le_refl _⟩

theorem Effect.shape (effect : Effect memory view cell event memory' view') (isCell : cell.IsCell)
    (shape : Shape memory view) (fresh : ∀ node, event = some (.link node) → Fresh memory view node) :
    Shape memory' view' ∧ view.Applies view' event := by
  cases effect with
  | keep => exact ⟨shape, rfl, rfl⟩
  | cell value =>
    have kept := update_cell memory isCell value
    exact ⟨shape.congr (kept _ id) (kept _ id) (fun _ _ => kept _ id) fun _ _ => kept _ id, rfl, rfl⟩
  | link last node passed end_ =>
    have ready := fresh node rfl
    exact ⟨shape.link passed end_ ready.new ready.alone ready.unmarked, rfl, rfl⟩
  | mark first next threadIndex ahead unmarked =>
    obtain ⟨here, after⟩ := shape.mark ahead unmarked threadIndex
    exact ⟨after, rfl, rfl, here⟩
  | moveTail last next follows points => exact ⟨shape.moveTail follows points, rfl, rfl⟩
  | moveHead first next taken points => exact ⟨shape.moveHead taken points, rfl, rfl⟩

/-- No step writes another cell. -/
theorem Effect.cell_kept (effect : Effect memory view cell event memory' view') {other : Address}
    (isCell : other.IsCell) (different : other ≠ cell) : memory' other = memory other := by
  cases effect with
  | keep => rfl
  | cell => exact Function.update_of_ne different _ _
  | link | mark | moveTail | moveHead =>
    refine Function.update_of_ne ?_ _ _
    rintro rfl
    exact isCell

/-- A node that is ready to be linked stays so until it is linked. -/
theorem Effect.fresh_kept (effect : Effect memory view cell event memory' view')
    (isCell : cell.IsCell) {node : Nat} (fresh : Fresh memory view node)
    (other : event ≠ some (.link node)) : Fresh memory' view' node := by
  obtain ⟨new, alone, unmarked⟩ := fresh
  cases effect with
  | keep => exact ⟨new, alone, unmarked⟩
  | cell value =>
    exact ⟨new, (update_cell memory isCell value _ id).trans alone,
      (update_cell memory isCell value _ id).trans unmarked⟩
  | link last added passed end_ =>
    refine ⟨?_, ?_, ?_⟩
    · rw [List.mem_append, List.mem_singleton]
      rintro (member | rfl)
      · exact new member
      · exact other rfl
    · have different : node ≠ last := by
        rintro rfl
        exact new passed.mem
      rw [Function.update_of_ne (by simp [different]), alone]
    · rw [Function.update_of_ne (by simp), unmarked]
  | mark first next threadIndex ahead =>
    have different : node ≠ first := by
      rintro rfl
      exact new ahead.mem
    refine ⟨new, ?_, ?_⟩
    · rw [Function.update_of_ne (by simp), alone]
    · rw [Function.update_of_ne (by simp [different]), unmarked]
  | moveTail | moveHead =>
    refine ⟨new, ?_, ?_⟩
    · rw [Function.update_of_ne (by simp), alone]
    · rw [Function.update_of_ne (by simp), unmarked]

end Effect

/-- The event of a step of `enq()`. -/
def enqEvent (memory : Address → Option Nat) (newNode : Nat) : EnqPc → Option Event
  | .exchangeNext last => if memory (.next last) = none then some (.link newNode) else none
  | _ => none

/-- The event of a step of `deq()`. -/
def deqEvent (memory : Address → Option Nat) : DeqPc → Option Event
  | .exchangeDel first _ =>
    if memory (.delThreadIndex first) = none then some (.mark first) else none
  | _ => none

section Steps

variable {store after : Store} {cell : Address} {view : View}

theorem exchangeTail_effect (store : Store) (cell : Address) {last next : Nat} (follows : view.Follows last next) :
    ∃ view', Effect store.memory view cell none
      (store.compareExchange .tail (some next) (some last)).memory view' := by
  unfold Store.compareExchange
  split
  · next points => exact ⟨_, .moveTail last next follows points⟩
  · exact ⟨view, .keep⟩

theorem exchangeHead_effect (store : Store) (cell : Address) {first : Nat} {next : Option Nat}
    (taken : view.Taken first next) :
    ∃ view', Effect store.memory view cell none
      (store.compareExchange .head next (some first)).memory view' := by
  unfold Store.compareExchange
  split
  · next points => exact ⟨_, .moveHead first next taken points⟩
  · exact ⟨view, .keep⟩

theorem keeps_enq {memory : Address → Option Nat} {newNode : Nat} {pc : EnqPc}
    (fits : pc.Fits view newNode) :
    ∃ view', Effect memory view cell none memory view' ∧
      ∀ following ∈ some pc, following.Fits view' newNode := by
  refine ⟨view, .keep, fun following same => ?_⟩
  cases same
  exact fits

theorem keeps_deq {memory : Address → Option Nat} {pc : DeqPc} (fits : pc.Fits view) :
    ∃ view', Effect memory view cell none memory view' ∧
      ∀ following, (.inl pc : DeqPc ⊕ Bool) = .inl following → following.Fits view' := by
  refine ⟨view, .keep, fun following same => ?_⟩
  cases same
  exact fits

theorem stepEnq_effect {newNode : Nat} {detectType : Int} {pc : EnqPc} {pc' : Option EnqPc}
    (shape : Shape store.memory view) (fits : pc.Fits view newNode)
    (step : stepEnq store cell newNode detectType pc = some (after, pc')) :
    ∃ view', Effect store.memory view cell (enqEvent store.memory newNode pc) after.memory view' ∧
      ∀ following ∈ pc', following.Fits view' newNode := by
  cases pc with
  | loadTail =>
    simp only [stepEnq, Option.map_eq_some_iff, Prod.mk.injEq] at step
    obtain ⟨last, points, rfl, rfl⟩ := step
    refine ⟨view, .keep, fun following same => ?_⟩
    cases same
    rw [shape.tail] at points
    exact ⟨view.tail, Nat.le_refl _, points⟩
  | loadNext last =>
    cases step
    exact keeps_enq ⟨fits, fun node behind => shape.linked.follows fits behind⟩
  | checkTail last next =>
    simp only [stepEnq] at step
    split at step
    · cases next with
      | none =>
        cases step
        exact keeps_enq fits.1
      | some next =>
        cases step
        exact keeps_enq (fits.2 next rfl)
    · cases step
      exact keeps_enq trivial
  | exchangeNext last =>
    simp only [stepEnq] at step
    split at step
    · next end_ =>
      cases step
      simp only [enqEvent, if_pos end_]
      refine ⟨_, .link last newNode fits end_, fun following same => ?_⟩
      cases same
      obtain ⟨index, below, here⟩ := fits
      have length := shape.linked.last here end_
      refine ⟨index, below, index_append here _, ?_⟩
      rw [length, index_append_self]
    · next occupied =>
      cases step
      simp only [enqEvent, if_neg occupied]
      exact keeps_enq trivial
  | flushNext last | flushBehind last next =>
    cases step
    exact keeps_enq fits
  | clearCell last =>
    cases step
    refine ⟨view, .cell none, fun following same => ?_⟩
    cases same
    split
    · exact fits
    · exact fits
  | flushCell last =>
    cases step
    exact keeps_enq fits
  | exchangeTail last =>
    cases step
    obtain ⟨view', effect⟩ := exchangeTail_effect store cell fits
    refine ⟨view', effect, fun following same => ?_⟩
    cases same
  | exchangeBehind last next =>
    cases step
    obtain ⟨view', effect⟩ := exchangeTail_effect store cell fits
    refine ⟨view', effect, fun following same => ?_⟩
    cases same
    trivial

theorem stepDeq_effect {threadIndex : Nat} {detectType : Int} {pc : DeqPc} {pc' : DeqPc ⊕ Bool}
    (shape : Shape store.memory view) (fits : pc.Fits view)
    (step : stepDeq store cell threadIndex detectType pc = some (after, pc')) :
    ∃ view', Effect store.memory view cell (deqEvent store.memory pc) after.memory view' ∧
      ∀ following, pc' = .inl following → following.Fits view' := by
  cases pc with
  | loadHead =>
    simp only [stepDeq, Option.map_eq_some_iff, Prod.mk.injEq] at step
    obtain ⟨first, points, rfl, rfl⟩ := step
    refine ⟨view, .keep, fun following same => ?_⟩
    cases same
    rw [shape.head] at points
    exact ⟨view.head, Nat.le_refl _, points⟩
  | loadTail first =>
    cases step
    obtain ⟨index, below, here⟩ := fits
    have points := List.getElem?_eq_getElem shape.tail_lt
    rw [shape.tail, points]
    exact keeps_deq ⟨_, rfl, index, below, view.tail, Nat.le_refl _,
      below.trans shape.head_le, here, points⟩
  | loadNext first last =>
    cases step
    obtain ⟨node, same, between⟩ := fits
    exact keeps_deq ⟨node, same, shape.linked.read between⟩
  | checkHead first last next =>
    obtain ⟨node, rfl, read⟩ := fits
    simp only [stepDeq, Option.some.injEq] at step
    split at step
    · split at step
      · next equal =>
        subst equal
        cases next with
        | none =>
          cases step
          exact keeps_deq trivial
        | some next =>
          cases step
          exact keeps_deq read.follows
      · next different =>
        cases step
        exact keeps_deq (read.ahead (Ne.symm different))
    · cases step
      exact keeps_deq trivial
  | clearCell =>
    cases step
    refine ⟨view, .cell none, fun following same => ?_⟩
    split at same
    · cases same
      trivial
    · cases same
  | flushClear =>
    cases step
    refine ⟨view, .keep, fun following same => ?_⟩
    cases same
  | flushLast last next =>
    cases step
    exact keeps_deq fits
  | exchangeTail last next =>
    cases step
    obtain ⟨view', effect⟩ := exchangeTail_effect store cell fits
    refine ⟨view', effect, fun following same => ?_⟩
    cases same
    trivial
  | loadDel first next =>
    simp only [stepDeq] at step
    split at step
    · next marked =>
      cases step
      exact keeps_deq (shape.taken fits marked)
    · cases step
      exact keeps_deq fits
  | checkMarked first next =>
    simp only [stepDeq] at step
    split at step
    · cases step
      exact keeps_deq fits
    · cases step
      exact keeps_deq (View.Taken.ahead fits)
  | flushMarked first next | flushDel first next | flushCell first next =>
    cases step
    exact keeps_deq fits
  | recheckHead first next | checkLost first next =>
    simp only [stepDeq] at step
    split at step
    · cases step
      exact keeps_deq fits
    · cases step
      exact keeps_deq trivial
  | exchangeHead first next =>
    cases step
    obtain ⟨view', effect⟩ := exchangeHead_effect store cell fits
    refine ⟨view', effect, fun following same => ?_⟩
    cases same
    trivial
  | storeCell first next =>
    cases step
    refine ⟨view, .cell (some first), fun following same => ?_⟩
    split at same
    · cases same
      exact fits
    · cases same
      exact fits
  | exchangeDel first next =>
    simp only [stepDeq] at step
    split at step
    · next unmarked =>
      cases step
      simp only [deqEvent, if_pos unmarked]
      refine ⟨_, .mark first next threadIndex fits unmarked, fun following same => ?_⟩
      cases same
      obtain ⟨here, -⟩ := shape.mark fits unmarked threadIndex
      obtain ⟨index, below, node, inside, there, rest⟩ := fits
      have place := shape.linked.index_unique there here
      exact ⟨index, below, node, inside, place ▸ Nat.lt_succ_self _, there, rest⟩
    · next marked =>
      cases step
      simp only [deqEvent, if_neg marked]
      exact keeps_deq (shape.taken fits marked)
  | checkWon first next =>
    simp only [stepDeq] at step
    split at step
    · cases step
      exact keeps_deq fits
    · cases step
      refine ⟨view, .keep, fun following same => ?_⟩
      cases same
  | exchangeWon first next =>
    cases step
    obtain ⟨view', effect⟩ := exchangeHead_effect store cell fits
    refine ⟨view', effect, fun following same => ?_⟩
    cases same

end Steps

end Pmwcas.MSQueueByOrgCas
