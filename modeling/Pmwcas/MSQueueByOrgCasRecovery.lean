/-
This file is about `MSQueueByOrgCas::recover()`. It walks from the head it finds in the crash image
to the end of the list, moves the head past the marked nodes and the tail along with it. A tail that
is before the head in the list is never met and stays where it is: the queue is restored exactly if
the walk from the durable head meets the durable tail.
-/

import Pmwcas.MSQueueByOrgCasDurable

namespace Pmwcas.MSQueueByOrgCas

open Transition LinkedList

/-! ### `recover()` -/

/-- The next step of `recover()`. -/
inductive RecoverPc
  | loadHead
  | checkEnqNode (curNode : Nat)
  | loadNext (curNode : Nat)
  | loadDel (curNode next : Nat)
  | checkHead (curNode next : Nat)
  | exchangeHead (curNode next : Nat)
  | checkTail (curNode next : Nat)
  | exchangeTail (curNode next : Nat)
deriving DecidableEq

/-- One step of `recover()`; without a next one it has returned. `enqNodeMap` gives the thread whose
cell announces a node. -/
def stepRecover (store : Store) (enqNodeMap : Nat → Option Nat) :
    RecoverPc → Option (Store × Option RecoverPc)
  | .loadHead => (store.memory .head).map fun curNode => (store, some (.checkEnqNode curNode))
  | .checkEnqNode curNode =>
    match enqNodeMap curNode with
    | some thread =>
      some (store.compareExchange (.enqCell thread) none (some curNode), some (.loadNext curNode))
    | none => some (store, some (.loadNext curNode))
  | .loadNext curNode =>
    match store.memory (.next curNode) with
    | some next => some (store, some (.loadDel curNode next))
    | none => some (store, none)
  | .loadDel curNode next =>
    if store.memory (.delThreadIndex curNode) ≠ none then
      some (store, some (.checkHead curNode next))
    else some (store, some (.checkTail curNode next))
  | .checkHead curNode next =>
    if store.memory .head = some curNode then some (store, some (.exchangeHead curNode next))
    else some (store, some (.checkTail curNode next))
  | .exchangeHead curNode next =>
    some (store.compareExchange .head (some next) (some curNode), some (.checkTail curNode next))
  | .checkTail curNode next =>
    if store.memory .tail = some curNode then some (store, some (.exchangeTail curNode next))
    else some (store, some (.checkEnqNode next))
  | .exchangeTail curNode next =>
    some (store.compareExchange .tail (some next) (some curNode), some (.checkEnqNode next))

/-- `recover()` of one thread alone, from this step on, ends and leaves this memory. -/
inductive Recovers (enqNodeMap : Nat → Option Nat) : Store → RecoverPc → Store → Prop
  | done {store after : Store} {pc : RecoverPc}
    (step : stepRecover store enqNodeMap pc = some (after, none)) :
    Recovers enqNodeMap store pc after
  | step {store next after : Store} {pc following : RecoverPc}
    (step : stepRecover store enqNodeMap pc = some (next, some following))
    (rest : Recovers enqNodeMap next following after) : Recovers enqNodeMap store pc after

/-! ### The walk -/

/-- `recover()` has come to the node at `index`: the head is there, or where the first unmarked node
is. -/
structure Walking (memory : Address → Option Nat) (order : List Nat) (marked index tail : Nat) :
    Prop where
  linked : Linked (fun node => memory (.next node)) order
  marks : ∀ place node, order[place]? = some node →
    (memory (.delThreadIndex node) ≠ none ↔ place < marked)
  head : memory .head = order[min index marked]?
  tail : memory .tail = order[tail]?

/-- What `recover()` leaves alone. -/
structure Kept (store after : Store) : Prop where
  next : ∀ node, after.memory (.next node) = store.memory (.next node)
  del : ∀ node, after.memory (.delThreadIndex node) = store.memory (.delThreadIndex node)
  durable : after.durable = store.durable

theorem Kept.refl (store : Store) : Kept store store :=
  ⟨fun _ => rfl, fun _ => rfl, rfl⟩

theorem Kept.trans {first second third : Store} (one : Kept first second) (two : Kept second third) :
    Kept first third :=
  ⟨fun node => (two.next node).trans (one.next node), fun node => (two.del node).trans (one.del node),
    two.durable.trans one.durable⟩

theorem Kept.compareExchange (store : Store) {address : Address}
    (notNext : ∀ node, address ≠ .next node) (notDel : ∀ node, address ≠ .delThreadIndex node)
    (new old : Option Nat) : Kept store (store.compareExchange address new old) :=
  ⟨fun node => store.compareExchange_of_ne (notNext node).symm new old,
    fun node => store.compareExchange_of_ne (notDel node).symm new old, by simp⟩

section Walk

variable {store : Store} {order : List Nat}
  {marked index tail curNode next : Nat}

theorem Walking.congr {memory memory' : Address → Option Nat}
    (walking : Walking memory order marked index tail) {tail' index' : Nat}
    (next : ∀ node, memory' (.next node) = memory (.next node))
    (del : ∀ node, memory' (.delThreadIndex node) = memory (.delThreadIndex node))
    (head : memory' .head = order[min index' marked]?) (tail : memory' .tail = order[tail']?) :
    Walking memory' order marked index' tail' where
  linked := walking.linked.congr fun node _ => next node
  marks place node here := by
    rw [del node]
    exact walking.marks place node here
  head := head
  tail := tail

/-- The announcement of a node that is met is cleared; this is no part of the queue. -/
theorem Walking.checkEnqNode (enqNodeMap : Nat → Option Nat)
    (walking : Walking store.memory order marked index tail) (curNode : Nat) :
    ∃ after, stepRecover store enqNodeMap (.checkEnqNode curNode) =
        some (after, some (.loadNext curNode)) ∧
      Walking after.memory order marked index tail ∧ Kept store after := by
  cases found : enqNodeMap curNode with
  | none => exact ⟨store, by simp only [stepRecover, found], walking, .refl store⟩
  | some thread =>
    have isNot : ∀ node, Address.enqCell thread ≠ .next node := by simp
    have kept := Kept.compareExchange store isNot (by simp) none (some curNode)
    refine ⟨_, by simp only [stepRecover, found], walking.congr kept.next kept.del ?_ ?_, kept⟩
    · rw [store.compareExchange_of_ne (by simp), walking.head]
    · rw [store.compareExchange_of_ne (by simp), walking.tail]

/-- The part of the loop about the head: it moves on if the node is marked. -/
theorem Walking.moveHead (enqNodeMap : Nat → Option Nat)
    (walking : Walking store.memory order marked index tail)
    (here : order[index]? = some curNode) (there : order[index + 1]? = some next) :
    ∃ middle, Walking middle.memory order marked (index + 1) tail ∧ Kept store middle ∧
      ∀ after, Recovers enqNodeMap middle (.checkTail curNode next) after →
        Recovers enqNodeMap store (.loadDel curNode next) after := by
  by_cases below : index < marked
  · have isMarked := (walking.marks index curNode here).2 below
    have points : store.memory .head = some curNode := by
      rw [walking.head, Nat.min_eq_left (Nat.le_of_lt below), here]
    have isNot : ∀ node, Address.head ≠ .next node := by simp
    have kept := Kept.compareExchange store isNot (by simp) (some next) (some curNode)
    refine ⟨_, walking.congr kept.next kept.del ?_ ?_, kept, fun after rest => ?_⟩
    · rw [store.compareExchange_succeeds points, Nat.min_eq_left below, there]
    · rw [store.compareExchange_of_ne (by simp), walking.tail]
    · refine .step (by rw [stepRecover, if_pos isMarked]) ?_
      refine .step (by rw [stepRecover, if_pos points]) ?_
      exact .step rfl rest
  · have unmarked := mt (walking.marks index curNode here).1 below
    refine ⟨store, walking.congr (fun _ => rfl) (fun _ => rfl) ?_ walking.tail, .refl store,
      fun after rest => .step (by rw [stepRecover, if_neg unmarked]) rest⟩
    have same : min (index + 1) marked = min index marked := by omega
    rw [same, walking.head]

/-- The part of the loop about the tail: it moves on if it is at the node. -/
theorem Walking.moveTail (enqNodeMap : Nat → Option Nat)
    (walking : Walking store.memory order marked (index + 1) tail)
    (here : order[index]? = some curNode) (there : order[index + 1]? = some next) :
    ∃ middle, Walking middle.memory order marked (index + 1)
        (if tail = index then index + 1 else tail) ∧ Kept store middle ∧
      ∀ after, Recovers enqNodeMap middle (.checkEnqNode next) after →
        Recovers enqNodeMap store (.checkTail curNode next) after := by
  by_cases same : tail = index
  · have points : store.memory .tail = some curNode := by
      rw [walking.tail, same, here]
    have isNot : ∀ node, Address.tail ≠ .next node := by simp
    have kept := Kept.compareExchange store isNot (by simp) (some next) (some curNode)
    refine ⟨_, walking.congr kept.next kept.del ?_ ?_, kept, fun after rest => ?_⟩
    · rw [store.compareExchange_of_ne (by simp), walking.head]
    · rw [store.compareExchange_succeeds points, if_pos same, there]
    · refine .step (by rw [stepRecover, if_pos points]) ?_
      exact .step rfl rest
  · have other : store.memory .tail ≠ some curNode := by
      rw [walking.tail]
      intro points
      exact same (walking.linked.index_unique points here)
    rw [if_neg same]
    exact ⟨store, walking, .refl store,
      fun after rest => .step (by rw [stepRecover, if_neg other]) rest⟩

/-- From any node on, `recover()` walks to the last one. It takes the tail along from where it meets
it. -/
theorem Walking.recovers (enqNodeMap : Nat → Option Nat)
    (walking : Walking store.memory order marked index tail)
    (here : order[index]? = some curNode) :
    ∃ after, Recovers enqNodeMap store (.checkEnqNode curNode) after ∧
      Walking after.memory order marked (order.length - 1)
        (if index ≤ tail then max tail (order.length - 1) else tail) ∧ Kept store after := by
  induction rest : order.length - index generalizing store index tail curNode with
  | zero =>
    have := index_lt here
    omega
  | succ remaining inductionHypothesis =>
    obtain ⟨first, step, walking, kept⟩ := walking.checkEnqNode enqNodeMap curNode
    have inside := index_lt here
    cases there : order[index + 1]? with
    | none =>
      have last : index = order.length - 1 := by
        have := List.getElem?_eq_none_iff.1 there
        omega
      have end_ : first.memory (.next curNode) = none := (walking.linked.next index curNode here).trans there
      refine ⟨first, .step step (.done (by rw [stepRecover, end_])), ?_, kept⟩
      rw [← last]
      have same : (if index ≤ tail then max tail index else tail) = tail := by
        split
        · omega
        · rfl
      rw [same]
      exact walking
    | some next =>
      have behind : first.memory (.next curNode) = some next :=
        (walking.linked.next index curNode here).trans there
      obtain ⟨second, walking, keptHead, throughHead⟩ := walking.moveHead enqNodeMap here there
      obtain ⟨third, walking, keptTail, throughTail⟩ := walking.moveTail enqNodeMap here there
      obtain ⟨after, recovers, walking, keptRest⟩ := inductionHypothesis walking there (by omega)
      refine ⟨after, .step step (.step (by rw [stepRecover, behind]) (throughHead after
        (throughTail after recovers))), ?_, kept.trans (keptHead.trans (keptTail.trans keptRest))⟩
      have inside := index_lt there
      have same : (if index + 1 ≤ (if tail = index then index + 1 else tail) then
          max (if tail = index then index + 1 else tail) (order.length - 1)
          else if tail = index then index + 1 else tail) =
          if index ≤ tail then max tail (order.length - 1) else tail := by
        split_ifs <;> omega
      rw [same] at walking
      exact walking

end Walk

/-! ### The crash image -/

/-- The durable list of a crash image: the nodes that its links reach from the sentinel, and how many
of them, from the first one on, are marked. -/
structure DurableList (image : Address → Option Nat) (sentinel : Nat) (order : List Nat)
    (marked : Nat) : Prop where
  linked : Linked (fun node => image (.next node)) order
  starts : order[0]? = some sentinel
  marks : ∀ index node, order[index]? = some node →
    (image (.delThreadIndex node) ≠ none ↔ index < marked)
  marked_lt : marked < order.length

theorem Persists.durableList {durable : Address → Option Nat} {memory : Address → Option Nat}
    {view : View} {image : Image} (persists : Persists durable view image) (shape : Shape memory view)
    {sentinel : Nat} (starts : view.order[0]? = some sentinel) :
    DurableList durable sentinel (view.order.take image.length) image.marked where
  linked := by
    refine ⟨(List.take_sublist _ _).nodup shape.linked.nodup, fun index node here => ?_⟩
    rw [List.getElem?_take] at here
    split at here
    · exact persists.next index node here
    · cases here
  starts := by
    rw [List.getElem?_take_of_lt (Nat.zero_lt_of_lt persists.tail_lt), starts]
  marks index node here := by
    rw [List.getElem?_take] at here
    split at here
    · exact persists.marks index node here
    · cases here
  marked_lt := by
    rw [List.length_take, Nat.min_eq_left persists.length_le]
    have := persists.marked_le
    have := shape.marked_le
    have := persists.tail_lt
    omega

/-- The walk that `recover()` begins in a crash image. -/
theorem Persists.walking {durable : Address → Option Nat} {memory : Address → Option Nat}
    {view : View} {image : Image} (persists : Persists durable view image) (shape : Shape memory view)
    {sentinel : Nat} (starts : view.order[0]? = some sentinel) :
    Walking durable (view.order.take image.length) image.marked image.head image.tail := by
  have list := persists.durableList shape starts
  have head : image.head ≤ image.marked := persists.head_le.trans persists.head_le_marked
  have marked : image.marked < image.length := by
    have := list.marked_lt
    rw [List.length_take, Nat.min_eq_left persists.length_le] at this
    exact this
  refine ⟨list.linked, list.marks, ?_, ?_⟩
  · rw [Nat.min_eq_left head, List.getElem?_take_of_lt (Nat.lt_of_le_of_lt head marked), persists.head]
  · rw [List.getElem?_take_of_lt (Nat.lt_of_le_of_lt persists.tail_le persists.tail_lt),
      persists.tail]

/-- The queue after a restart: the memory that recovery leaves, and no thread in a call. -/
def State.restarted (store : Store) (used : List Nat) : State where
  store := store
  threads _ := .idle none
  used := used

/-- What recovery promises. The head is at the first unmarked node of the durable list and the tail
at its last node, no link and no mark of it is lost, and every further run is one of a FIFO queue
that goes on from there. -/
def Restores (sentinel : Nat) (image : Address → Option Nat) (recovered : Store) (used : List Nat) :
    Prop :=
  ∃ order marked, DurableList image sentinel order marked ∧
    recovered.memory .head = order[marked]? ∧
    recovered.memory .tail = order[order.length - 1]? ∧
    (∀ node, recovered.memory (.next node) = image (.next node)) ∧
    (∀ node, recovered.memory (.delThreadIndex node) = image (.delThreadIndex node)) ∧
    ∀ run : Run (systemFrom (.restarted recovered used)),
      ∃ view, Fifo run ⟨⟨order, marked, order.length - 1⟩, marked⟩ view

/-- The condition: the links of the crash image lead from its head to its tail. -/
def TailReachable (image : Address → Option Nat) : Prop :=
  ∀ first last, image .head = some first → image .tail = some last →
    Relation.ReflTransGen (fun node next => image (.next node) = some next) first last

/-- The restored queue has its shape. -/
theorem Walking.sound {store : Store} {order used : List Nat} {marked : Nat}
    (walking : Walking store.memory order marked (order.length - 1) (order.length - 1))
    (marked_lt : marked < order.length) (members : ∀ node ∈ order, node ∈ used) :
    Sound (.restarted store used) ⟨⟨order, marked, order.length - 1⟩, marked⟩ where
  shape :=
    { linked := walking.linked
      head := by
        have same : min (order.length - 1) marked = marked := by omega
        rw [← same]
        exact walking.head
      tail := walking.tail
      marks := walking.marks
      head_le := by
        show marked ≤ order.length - 1
        omega
      head_le_marked := Nat.le_refl _
      marked_le_head := Nat.le_succ _
      marked_le := by
        show marked ≤ order.length - 1
        omega
      tail_lt := by
        show order.length - 1 < order.length
        omega
      length_le := by
        show order.length ≤ order.length - 1 + 2
        omega }
  used := members
  owns _ _ owns := owns.elim
  apart _ _ _ owns := owns.elim
  announced _ _ same := by cases same
  fits _ := trivial
  holds _ _ holds := holds.elim

/-- `recover()` ends in every crash image, and restores the queue exactly if the tail of the image
can be reached from its head. -/
theorem Recoverable.recovers {state : State} {view : View} {image : Image}
    (recoverable : Recoverable state view image) {sentinel : Nat}
    (starts : view.order[0]? = some sentinel) (enqNodeMap : Nat → Option Nat) :
    ∃ recovered, Recovers enqNodeMap state.store.crash .loadHead recovered ∧
      (Restores sentinel state.store.durable recovered state.used ↔
        TailReachable state.store.durable) := by
  have persists := recoverable.persists
  have shape := recoverable.sound.shape
  have list := persists.durableList shape starts
  have walking : Walking state.store.crash.memory _ _ _ _ := persists.walking shape starts
  have length : (view.order.take image.length).length = image.length := by
    rw [List.length_take, Nat.min_eq_left persists.length_le]
  have headLt : image.head < (view.order.take image.length).length :=
    Nat.lt_of_le_of_lt (persists.head_le.trans persists.head_le_marked) list.marked_lt
  have tailLt : image.tail < (view.order.take image.length).length := by
    rw [length]
    exact Nat.lt_of_le_of_lt persists.tail_le persists.tail_lt
  have headHere := List.getElem?_eq_getElem headLt
  have tailHere := List.getElem?_eq_getElem tailLt
  have headPoints := walking.head
  rw [Nat.min_eq_left (persists.head_le.trans persists.head_le_marked), headHere] at headPoints
  have tailPoints := walking.tail
  rw [tailHere] at tailPoints
  obtain ⟨recovered, recovers, walked, kept⟩ := walking.recovers enqNodeMap headHere
  have begins : stepRecover state.store.crash enqNodeMap .loadHead =
      some (state.store.crash,
        some (.checkEnqNode (view.order.take image.length)[image.head])) := by
    rw [stepRecover, headPoints]
    rfl
  have reachable : TailReachable state.store.durable ↔ image.head ≤ image.tail := by
    rw [← list.linked.reachable_iff headHere tailHere]
    constructor
    · intro reachable
      exact reachable _ _ headPoints tailPoints
    · intro reaches first last one two
      cases headPoints.symm.trans one
      cases tailPoints.symm.trans two
      exact reaches
  refine ⟨recovered, .step begins recovers, ?_⟩
  rw [reachable]
  constructor
  · rintro ⟨order, marked, other, -, tail, -⟩
    have same := list.linked.unique other.linked (list.starts.trans other.starts.symm)
    by_contra behind
    rw [if_neg behind] at walked
    rw [← same, walked.tail] at tail
    have place := List.getElem?_inj tailLt list.linked.nodup |>.1 tail
    omega
  · intro ahead
    rw [if_pos ahead, Nat.max_eq_right (Nat.le_sub_one_of_lt tailLt)] at walked
    have members : ∀ node ∈ view.order.take image.length, node ∈ state.used :=
      fun node member => recoverable.sound.used node (List.mem_of_mem_take member)
    have sound := walked.sound list.marked_lt members
    exact ⟨_, _, list, sound.shape.head, walked.tail, kept.next, kept.del,
      fun run => sound.exists_fifo (fun _ => trivial) run⟩

/-- At every point of every run a crash and `recover()` of one thread restore the queue exactly if the
durable tail can be reached from the durable head. -/
theorem restores_iff_of_run (sentinel : Nat) (run : Run (system sentinel)) (index : Nat)
    (inside : index ≤ run.length) (enqNodeMap : Nat → Option Nat) :
    ∃ recovered, Recovers enqNodeMap (run.state index).store.crash .loadHead recovered ∧
      (Restores sentinel (run.state index).store.durable recovered (run.state index).used ↔
        TailReachable (run.state index).store.durable) := by
  obtain ⟨view, image, recoverable, starts⟩ := recoverable_of_run sentinel run index inside
  exact recoverable.recovers starts enqNodeMap

/-- One thread enqueues the node 1 behind the sentinel 0. -/
def enqueueOne : List Action :=
  .enq 0 1 0 :: List.replicate 9 (.step 0)

theorem restores_iff_of_run_enqueueOne : ∃ run : Run (system 0), run.length = 10 ∧
    TailReachable (run.state 10).store.durable ∧
    ∃ recovered, Recovers (fun _ => none) (run.state 10).store.crash .loadHead recovered ∧
      Restores 0 (run.state 10).store.durable recovered (run.state 10).used := by
  obtain ⟨run, length, states, -⟩ := exists_run_of_next (fun state => state = .start 0) State.next rfl
    enqueueOne (by decide +kernel)
  have found := satisfies_of_replay (fun state => state.store.durable .head = some 0 ∧
    state.store.durable .tail = some 0) (states 10) (by decide +kernel)
  have reachable : TailReachable (run.state 10).store.durable := by
    intro first last one two
    rw [found.1] at one
    rw [found.2] at two
    cases one
    cases two
    exact .refl
  obtain ⟨recovered, recovers, iff⟩ := restores_iff_of_run 0 run 10 (by rw [length]; decide)
    fun _ => none
  exact ⟨run, length, reachable, recovered, recovers, iff.2 reachable⟩

/-- One thread enqueues the node 1 behind the sentinel and dequeues the sentinel; the new head is
written back, and the tail is not. -/
def headAlone : List Action :=
  enqueueOne ++ Action.deq 0 0 0 :: List.replicate 11 (Action.step 0) ++ [Action.writeBack .head]

/-- After a crash at this point the tail stays before the head. -/
theorem exists_not_restores : ∃ run : Run (system 0), ∃ recovered,
    Recovers (fun _ => none) (run.state 23).store.crash .loadHead recovered ∧
      ¬ Restores 0 (run.state 23).store.durable recovered (run.state 23).used := by
  obtain ⟨run, length, states, -⟩ := exists_run_of_next (fun state => state = .start 0) State.next rfl
    headAlone (by decide +kernel)
  have found := satisfies_of_replay (fun state => state.store.durable .head = some 1 ∧
    state.store.durable .tail = some 0 ∧ state.store.durable (.next 1) = none) (states 23)
    (by decide +kernel)
  obtain ⟨view, image, recoverable, starts⟩ := recoverable_of_run 0 run 23 (by rw [length]; decide)
  obtain ⟨recovered, recovers, iff⟩ := recoverable.recovers starts fun _ => none
  refine ⟨run, recovered, recovers, fun restores => ?_⟩
  have reaches := iff.1 restores 1 0 found.1 found.2.1
  cases reaches.cases_head with
  | inl same => cases same
  | inr further =>
    obtain ⟨next, step, -⟩ := further
    rw [found.2.2] at step
    cases step

end Pmwcas.MSQueueByOrgCas
