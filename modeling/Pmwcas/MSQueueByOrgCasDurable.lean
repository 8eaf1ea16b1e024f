/-
This file is about the durable copy of the queue over plain `CompareExchange64`. A link is flushed
before the tail moves past it, and a mark before the head does. So the durable list is the list of
all linked nodes with at most the last one missing, and of its marks at most the last one is
missing. Head and tail themselves are written back on their own, each at any time.
-/

import Pmwcas.MSQueueByOrgCasFifo

namespace Pmwcas.MSQueueByOrgCas

open Transition LinkedList

/-! ### The durable queue -/

/-- The durable queue: the places of head and tail, the number of nodes that the durable links
reach, and the number of durable marks. -/
structure Image where
  head : Nat
  tail : Nat
  length : Nat
  marked : Nat

/-- The durable copies hold this part of the queue. -/
structure Persists (durable : Address → Option Nat) (view : View) (image : Image) : Prop where
  head : durable .head = view.order[image.head]?
  tail : durable .tail = view.order[image.tail]?
  next : ∀ index node, view.order[index]? = some node →
    durable (.next node) = (view.order.take image.length)[index + 1]?
  marks : ∀ index node, view.order[index]? = some node →
    (durable (.delThreadIndex node) ≠ none ↔ index < image.marked)
  head_le : image.head ≤ view.head
  tail_le : image.tail ≤ view.tail
  tail_lt : view.tail < image.length
  length_le : image.length ≤ view.order.length
  head_le_marked : view.head ≤ image.marked
  marked_le : image.marked ≤ view.marked

theorem next_eq_some_iff {order : List Nat} {length index node : Nat} :
    (order.take length)[index + 1]? = some node ↔
      index + 1 < length ∧ order[index + 1]? = some node := by
  rw [List.getElem?_take]
  split
  · next inside => simp [inside]
  · next outside => simp [outside]

section Persists

variable {store : Store} {view : View} {image : Image}

/-- The place of a durable link. -/
theorem Persists.link_lt {durable : Address → Option Nat} (persists : Persists durable view image)
    {index node : Nat} (here : view.order[index]? = some node)
    (flushed : durable (.next node) ≠ none) : index + 1 < image.length := by
  obtain ⟨other, there⟩ := Option.ne_none_iff_exists'.1 flushed
  rw [persists.next index node here] at there
  exact (next_eq_some_iff.1 there).1

theorem Store.flush_of_ne (store : Store) {flushed address : Address} (other : address ≠ flushed) :
    (store.flush flushed).durable address = store.durable address :=
  Function.update_of_ne other _ _

theorem Store.flush_self (store : Store) (address : Address) :
    (store.flush address).durable address = store.memory address :=
  Function.update_self address _ _

/-- What a flush leaves of the durable queue in any case. -/
theorem Persists.flush_other (persists : Persists store.durable view image) {address : Address}
    (head : address ≠ .head) (tail : address ≠ .tail)
    (next : ∀ node, address ≠ .next node) (del : ∀ node, address ≠ .delThreadIndex node) :
    Persists (store.flush address).durable view image :=
  { persists with
    head := (store.flush_of_ne head.symm).trans persists.head
    tail := (store.flush_of_ne tail.symm).trans persists.tail
    next := fun index node here =>
      (store.flush_of_ne (next node).symm).trans (persists.next index node here)
    marks := fun index node here => by
      rw [store.flush_of_ne (del node).symm]
      exact persists.marks index node here }

theorem Persists.flush_head (persists : Persists store.durable view image)
    (shape : Shape store.memory view) :
    Persists (store.flush .head).durable view { image with head := view.head } :=
  { persists with
    head := (store.flush_self .head).trans shape.head
    tail := (store.flush_of_ne (by simp)).trans persists.tail
    next := fun index node here =>
      (store.flush_of_ne (by simp)).trans (persists.next index node here)
    marks := fun index node here => by
      rw [store.flush_of_ne (by simp)]
      exact persists.marks index node here
    head_le := Nat.le_refl _ }

theorem Persists.flush_tail (persists : Persists store.durable view image)
    (shape : Shape store.memory view) :
    Persists (store.flush .tail).durable view { image with tail := view.tail } :=
  { persists with
    head := (store.flush_of_ne (by simp)).trans persists.head
    tail := (store.flush_self .tail).trans shape.tail
    next := fun index node here =>
      (store.flush_of_ne (by simp)).trans (persists.next index node here)
    marks := fun index node here => by
      rw [store.flush_of_ne (by simp)]
      exact persists.marks index node here
    tail_le := Nat.le_refl _ }

/-- A flush of a link. Only the one to the last node may not have been durable. -/
theorem Persists.flush_next (persists : Persists store.durable view image)
    (shape : Shape store.memory view) {flushed place : Nat}
    (there : view.order[place]? = some flushed) (before : place + 1 < view.order.length) :
    Persists (store.flush (.next flushed)).durable view
      { image with length := max image.length (place + 2) } :=
  { persists with
    head := (store.flush_of_ne (by simp)).trans persists.head
    tail := (store.flush_of_ne (by simp)).trans persists.tail
    next := fun index node here => by
      have inside := index_lt here
      have tail_lt := persists.tail_lt
      have length_le := persists.length_le
      have length := shape.length_le
      by_cases same : node = flushed
      · subst same
        obtain rfl := shape.linked.index_unique here there
        have longer : index + 1 < max image.length (index + 2) := by omega
        rw [store.flush_self, shape.linked.next index node here, List.getElem?_take_of_lt longer]
      · rw [store.flush_of_ne (by simp [same]), persists.next index node here]
        have different : index ≠ place := by
          rintro rfl
          rw [here] at there
          cases there
          exact same rfl
        by_cases shorter : index + 1 < image.length
        · have longer : index + 1 < max image.length (place + 2) := by omega
          rw [List.getElem?_take_of_lt shorter, List.getElem?_take_of_lt longer]
        · have outside : max image.length (place + 2) ≤ index + 1 := by omega
          rw [List.getElem?_take_eq_none (Nat.le_of_not_lt shorter),
            List.getElem?_take_eq_none outside]
    marks := fun index node here => by
      rw [store.flush_of_ne (by simp)]
      exact persists.marks index node here
    tail_lt := Nat.lt_of_lt_of_le persists.tail_lt (Nat.le_max_left _ _)
    length_le := Nat.max_le.2 ⟨persists.length_le, before⟩ }

/-- A flush of a mark. Only the last one may not have been durable. -/
theorem Persists.flush_delThreadIndex (persists : Persists store.durable view image)
    (shape : Shape store.memory view) {flushed place : Nat}
    (there : view.order[place]? = some flushed) (below : place < view.marked) :
    Persists (store.flush (.delThreadIndex flushed)).durable view
      { image with marked := max image.marked (place + 1) } :=
  { persists with
    head := (store.flush_of_ne (by simp)).trans persists.head
    tail := (store.flush_of_ne (by simp)).trans persists.tail
    next := fun index node here =>
      (store.flush_of_ne (by simp)).trans (persists.next index node here)
    marks := fun index node here => by
      have one := shape.marked_le_head
      have atLeast := persists.head_le_marked
      have atMost := persists.marked_le
      show _ ↔ index < max image.marked (place + 1)
      by_cases same : node = flushed
      · subst same
        obtain rfl := shape.linked.index_unique here there
        rw [store.flush_self, shape.marks index node here]
        omega
      · rw [store.flush_of_ne (by simp [same]), persists.marks index node here]
        have different : index ≠ place := by
          rintro rfl
          rw [here] at there
          cases there
          exact same rfl
        omega
    head_le_marked := persists.head_le_marked.trans (Nat.le_max_left _ _)
    marked_le := Nat.max_le.2 ⟨persists.marked_le, below⟩ }

/-- A flush of a word whose durable copy is up to date. -/
theorem Store.flush_same (store : Store) {address : Address}
    (same : store.memory address = store.durable address) :
    (store.flush address).durable = store.durable := by
  rw [Store.flush_durable, same, Function.update_eq_self]

/-- A flush of a word of a node that is not linked. -/
theorem Persists.flush_unlinked (persists : Persists store.durable view image) {flushed : Nat}
    (unlinked : flushed ∉ view.order) {address : Address}
    (own : address = .next flushed ∨ address = .delThreadIndex flushed) :
    Persists (store.flush address).durable view image := by
  have isNot : ∀ node ∈ view.order, Address.next node ≠ address ∧
      Address.delThreadIndex node ≠ address := by
    intro node member
    have different : node ≠ flushed := by
      rintro rfl
      exact unlinked member
    rcases own with rfl | rfl
    · simp [different]
    · simp [different]
  have notHead : Address.head ≠ address ∧ Address.tail ≠ address := by
    rcases own with rfl | rfl
    · simp
    · simp
  exact
    { persists with
      head := (store.flush_of_ne notHead.1).trans persists.head
      tail := (store.flush_of_ne notHead.2).trans persists.tail
      next := fun index node here =>
        (store.flush_of_ne (isNot node (mem_of_index here)).1).trans (persists.next index node here)
      marks := fun index node here => by
        rw [store.flush_of_ne (isNot node (mem_of_index here)).2]
        exact persists.marks index node here }

/-- A flush of any word. -/
theorem Persists.flush (persists : Persists store.durable view image)
    (shape : Shape store.memory view) (address : Address) :
    ∃ image', Persists (store.flush address).durable view image' := by
  cases address with
  | head => exact ⟨_, persists.flush_head shape⟩
  | tail => exact ⟨_, persists.flush_tail shape⟩
  | next flushed =>
    by_cases member : flushed ∈ view.order
    · obtain ⟨place, there⟩ := List.mem_iff_getElem?.1 member
      by_cases before : place + 1 < view.order.length
      · exact ⟨_, persists.flush_next shape there before⟩
      · have length_le := persists.length_le
        refine ⟨image, ?_⟩
        rw [store.flush_same]
        · exact persists
        · rw [shape.linked.next place flushed there, persists.next place flushed there,
            List.getElem?_eq_none (Nat.le_of_not_lt before), List.getElem?_take_eq_none (by omega)]
    · exact ⟨image, persists.flush_unlinked member (.inl rfl)⟩
  | delThreadIndex flushed =>
    by_cases member : flushed ∈ view.order
    · obtain ⟨place, there⟩ := List.mem_iff_getElem?.1 member
      by_cases below : place < view.marked
      · exact ⟨_, persists.flush_delThreadIndex shape there below⟩
      · have marked_le := persists.marked_le
        have unmarked := mt (shape.marks place flushed there).1 below
        have unmarkedImage := mt (persists.marks place flushed there).1 (by omega)
        refine ⟨image, ?_⟩
        rw [store.flush_same]
        · exact persists
        · rw [not_not.1 unmarked, not_not.1 unmarkedImage]
    · exact ⟨image, persists.flush_unlinked member (.inr rfl)⟩
  | isBusy | enqCell | deqCell =>
    exact ⟨image, persists.flush_other (by simp) (by simp) (by simp) (by simp)⟩

/-- A step that moves head and tail only past what is durable. -/
theorem Persists.effect (persists : Persists store.durable view image)
    (shape : Shape store.memory view) {cell : Address} {event : Option Event}
    {memory' : Address → Option Nat} {view' : View}
    (effect : Effect store.memory view cell event memory' view')
    (linked : ∀ node, event = some (.link node) →
      store.durable (.next node) = none ∧ store.durable (.delThreadIndex node) = none)
    (tail : memory' .tail ≠ store.memory .tail →
      ∃ last, store.memory .tail = some last ∧ store.durable (.next last) ≠ none)
    (head : memory' .head ≠ store.memory .head →
      ∃ first, store.memory .head = some first ∧ store.durable (.delThreadIndex first) ≠ none) :
    Persists store.durable view' image := by
  have headLt : view.head < view.order.length :=
    Nat.lt_of_le_of_lt shape.head_le shape.tail_lt
  cases effect with
  | keep | cell => exact persists
  | link last node passed end_ =>
    obtain ⟨alone, unmarked⟩ := linked node rfl
    have length_le := persists.length_le
    have marked_le := persists.marked_le
    have markedLt := Nat.lt_of_le_of_lt shape.marked_le shape.tail_lt
    have kept : (view.order ++ [node]).take image.length = view.order.take image.length :=
      List.take_append_of_le_length length_le
    exact
      { persists with
        head := by
          rw [persists.head, List.getElem?_append_left
            (Nat.lt_of_le_of_lt persists.head_le headLt)]
        tail := by
          rw [persists.tail, List.getElem?_append_left
            (Nat.lt_of_le_of_lt persists.tail_le shape.tail_lt)]
        next := fun index other here => by
          show store.durable (.next other) = ((view.order ++ [node]).take image.length)[index + 1]?
          rw [kept]
          rcases index_append_singleton here with earlier | ⟨rfl, rfl⟩
          · exact persists.next index other earlier
          · rw [alone, List.getElem?_take_eq_none (by omega)]
        marks := fun index other here => by
          rcases index_append_singleton here with earlier | ⟨rfl, rfl⟩
          · exact persists.marks index other earlier
          · have outside : ¬ view.order.length < image.marked := by omega
            simp only [unmarked, ne_eq, not_true_eq_false, outside]
        length_le := by
          rw [List.length_append]
          exact Nat.le_add_right_of_le length_le }
  | mark first next threadIndex ahead unmarked =>
    exact { persists with marked_le := Nat.le_succ_of_le persists.marked_le }
  | moveTail last next follows points =>
    obtain ⟨index, below, here, there⟩ := follows
    have moved : Function.update store.memory .tail (some next) .tail ≠ store.memory .tail := by
      rw [Function.update_self, points]
      rintro same
      cases same
      exact absurd (shape.linked.index_unique here there) (Nat.ne_of_lt (Nat.lt_succ_self index))
    obtain ⟨other, same, flushed⟩ := tail moved
    rw [points] at same
    cases same
    obtain rfl := shape.tail_index points here
    exact { persists with
      tail_le := Nat.le_succ_of_le persists.tail_le
      tail_lt := persists.link_lt here flushed }
  | moveHead first next taken points =>
    obtain ⟨index, below, node, inside, marked, here, there, rfl⟩ := taken
    have moved : Function.update store.memory .head (some node) .head ≠ store.memory .head := by
      rw [Function.update_self, points]
      rintro same
      cases same
      exact absurd (shape.linked.index_unique here there) (Nat.ne_of_lt (Nat.lt_succ_self index))
    obtain ⟨other, same, flushed⟩ := head moved
    rw [points] at same
    cases same
    obtain rfl := shape.head_index points here
    exact { persists with
      head_le := Nat.le_succ_of_le persists.head_le
      head_le_marked := (persists.marks view.head first here).1 flushed }

end Persists

/-! ### What a thread has flushed -/

/-- The word that `enq()` has flushed before it moves the tail. -/
def EnqPc.flushed : EnqPc → Option Address
  | .clearCell last | .flushCell last | .exchangeTail last | .exchangeBehind last _ =>
    some (.next last)
  | _ => none

/-- The word that `deq()` has flushed before it moves head or tail. -/
def DeqPc.flushed : DeqPc → Option Address
  | .exchangeTail last _ => some (.next last)
  | .recheckHead first _ | .exchangeHead first _ | .checkWon first _ | .exchangeWon first _ =>
    some (.delThreadIndex first)
  | _ => none

def Pc.flushed : Pc → Option Address
  | .idle _ | .loadCell _ => none
  | .enq _ _ pc => pc.flushed
  | .deq _ _ pc => pc.flushed

/-- The word of a linked node has been written. -/
def Written (memory : Address → Option Nat) (view : View) (address : Address) : Prop :=
  memory address ≠ none ∧
    ∃ node ∈ view.order, address = .next node ∨ address = .delThreadIndex node

theorem Queue.Follows.written {memory : Address → Option Nat} {view : View} {last next : Nat}
    (shape : Shape memory view) (follows : view.Follows last next) :
    Written memory view (.next last) := by
  obtain ⟨index, -, here, there⟩ := follows
  refine ⟨?_, last, mem_of_index here, .inl rfl⟩
  rw [shape.linked.next index last here, there]
  exact Option.some_ne_none next

theorem View.Taken.written {memory : Address → Option Nat} {view : View} {first : Nat}
    {next : Option Nat} (shape : Shape memory view) (taken : view.Taken first next) :
    Written memory view (.delThreadIndex first) := by
  obtain ⟨index, -, node, -, marked, here, -⟩ := taken
  exact ⟨(shape.marks index first here).2 marked, first, mem_of_index here, .inr rfl⟩

theorem Pc.Fits.written {memory : Address → Option Nat} {view : View} {pc : Pc} {address : Address}
    (shape : Shape memory view) (fits : pc.Fits view) (flushed : pc.flushed = some address) :
    Written memory view address := by
  cases pc with
  | idle | loadCell => cases flushed
  | enq newNode detectType pc =>
    cases pc with
    | clearCell | flushCell | exchangeTail | exchangeBehind =>
      cases flushed
      exact Queue.Follows.written shape fits
    | _ => cases flushed
  | deq threadIndex detectType pc =>
    cases pc with
    | exchangeTail =>
      cases flushed
      exact Queue.Follows.written shape fits
    | recheckHead | exchangeHead | checkWon | exchangeWon =>
      cases flushed
      exact View.Taken.written shape fits
    | _ => cases flushed

/-- What a step does about flushes: it flushes one word or none, moves the tail past a link that it
has flushed, and the head past a mark that it has flushed. -/
structure Guarded (store after : Store) (flushed flushed' : Option Address) : Prop where
  durable : after.durable = store.durable ∨ ∃ address, after = store.flush address
  tail : after.memory .tail ≠ store.memory .tail →
    ∃ last, store.memory .tail = some last ∧ flushed = some (.next last)
  head : after.memory .head ≠ store.memory .head →
    ∃ first, store.memory .head = some first ∧ flushed = some (.delThreadIndex first)
  flushed : ∀ address, flushed' = some address → flushed = some address ∨ after = store.flush address

section Guarded

variable {store : Store} {flushed : Option Address}

/-- A step that only reads. -/
theorem Guarded.read {flushed' : Option Address}
    (same : ∀ address, flushed' = some address → flushed = some address) :
    Guarded store store flushed flushed' :=
  ⟨.inl rfl, fun changed => absurd rfl changed, fun changed => absurd rfl changed,
    fun address here => .inl (same address here)⟩

theorem Guarded.flush {flushed' : Option Address} (flushedNow : Address)
    (same : ∀ address, flushed' = some address → flushed = some address ∨ address = flushedNow) :
    Guarded store (store.flush flushedNow) flushed flushed' := by
  refine ⟨.inr ⟨flushedNow, rfl⟩, fun changed => absurd rfl changed, fun changed => absurd rfl changed,
    fun address here => ?_⟩
  rcases same address here with before | rfl
  · exact .inl before
  · exact .inr rfl

/-- A step that writes a word other than head and tail. -/
theorem Guarded.write {flushed' : Option Address} {address : Address} (value : Option Nat)
    (notTail : address ≠ .tail) (notHead : address ≠ .head)
    (same : ∀ address, flushed' = some address → flushed = some address) :
    Guarded store (store.write address value) flushed flushed' := by
  refine ⟨.inl rfl, fun changed => absurd ?_ changed, fun changed => absurd ?_ changed,
    fun address here => .inl (same address here)⟩
  · exact Function.update_of_ne notTail.symm _ _
  · exact Function.update_of_ne notHead.symm _ _

theorem Guarded.exchangeTail (last : Nat) (next : Option Nat) :
    Guarded store (store.compareExchange .tail next (some last)) (some (.next last)) none := by
  unfold Store.compareExchange
  split
  · next points =>
    refine ⟨.inl rfl, fun _ => ⟨last, points, rfl⟩, fun changed => absurd ?_ changed,
      fun address here => by cases here⟩
    rw [Store.write_memory, Function.update_of_ne (by simp)]
  · exact .read fun address here => by cases here

theorem Guarded.exchangeHead (first : Nat) (next : Option Nat) :
    Guarded store (store.compareExchange .head next (some first)) (some (.delThreadIndex first))
      none := by
  unfold Store.compareExchange
  split
  · next points =>
    refine ⟨.inl rfl, fun changed => absurd ?_ changed, fun _ => ⟨first, points, rfl⟩,
      fun address here => by cases here⟩
    rw [Store.write_memory, Function.update_of_ne (by simp)]
  · exact .read fun address here => by cases here

end Guarded

theorem stepEnq_guarded {store after : Store} {cell : Address} {newNode : Nat} {detectType : Int}
    {pc : EnqPc} {pc' : Option EnqPc} (isCell : cell.IsCell)
    (step : stepEnq store cell newNode detectType pc = some (after, pc')) :
    Guarded store after pc.flushed (Pc.afterEnq newNode detectType pc').flushed := by
  have notTail : cell ≠ .tail := by
    rintro rfl
    exact isCell
  have notHead : cell ≠ .head := by
    rintro rfl
    exact isCell
  cases pc with
  | loadTail =>
    simp only [stepEnq, Option.map_eq_some_iff, Prod.mk.injEq] at step
    obtain ⟨last, points, rfl, rfl⟩ := step
    exact .read fun address here => by cases here
  | loadNext last =>
    cases step
    exact .read fun address here => by cases here
  | checkTail last next =>
    simp only [stepEnq] at step
    split at step
    · cases next with
      | none | some =>
        cases step
        exact .read fun address here => by cases here
    · cases step
      exact .read fun address here => by cases here
  | exchangeNext last =>
    simp only [stepEnq] at step
    split at step
    · cases step
      exact .write _ (by simp) (by simp) fun address here => by cases here
    · cases step
      exact .read fun address here => by cases here
  | flushNext last | flushBehind last next =>
    cases step
    refine .flush _ fun address here => ?_
    cases here
    exact .inr rfl
  | clearCell last =>
    simp only [stepEnq] at step
    split at step
    · cases step
      exact .write _ notTail notHead fun address here => here
    · cases step
      exact .write _ notTail notHead fun address here => here
  | flushCell last =>
    cases step
    exact .flush _ fun address here => .inl here
  | exchangeTail last | exchangeBehind last next =>
    cases step
    exact .exchangeTail last _

theorem stepDeq_guarded {store after : Store} {cell : Address} {threadIndex : Nat}
    {detectType : Int} {pc : DeqPc} {pc' : DeqPc ⊕ Bool} (isCell : cell.IsCell)
    (step : stepDeq store cell threadIndex detectType pc = some (after, pc')) :
    Guarded store after pc.flushed (Pc.afterDeq threadIndex detectType pc').flushed := by
  have notTail : cell ≠ .tail := by
    rintro rfl
    exact isCell
  have notHead : cell ≠ .head := by
    rintro rfl
    exact isCell
  cases pc with
  | loadHead =>
    simp only [stepDeq, Option.map_eq_some_iff, Prod.mk.injEq] at step
    obtain ⟨node, points, rfl, rfl⟩ := step
    exact .read fun address here => by cases here
  | loadTail | loadNext =>
    cases step
    exact .read fun address here => by cases here
  | checkHead first last next =>
    simp only [stepDeq] at step
    split at step
    · split at step
      · cases next with
        | none | some =>
          cases step
          exact .read fun address here => by cases here
      · cases step
        exact .read fun address here => by cases here
    · cases step
      exact .read fun address here => by cases here
  | clearCell =>
    simp only [stepDeq] at step
    split at step
    · cases step
      exact .write _ notTail notHead fun address here => by cases here
    · cases step
      exact .write _ notTail notHead fun address here => by cases here
  | flushClear | flushCell =>
    cases step
    exact .flush _ fun address here => by cases here
  | flushLast | flushMarked | flushDel =>
    cases step
    refine .flush _ fun address here => ?_
    cases here
    exact .inr rfl
  | exchangeTail last next =>
    cases step
    exact .exchangeTail last _
  | loadDel | checkMarked | checkLost =>
    simp only [stepDeq] at step
    split at step
    · cases step
      exact .read fun address here => by cases here
    · cases step
      exact .read fun address here => by cases here
  | recheckHead | checkWon =>
    simp only [stepDeq] at step
    split at step
    · cases step
      exact .read fun address here => here
    · cases step
      exact .read fun address here => by cases here
  | exchangeHead first next | exchangeWon first next =>
    cases step
    exact .exchangeHead first _
  | storeCell =>
    simp only [stepDeq] at step
    split at step
    · cases step
      exact .write _ notTail notHead fun address here => by cases here
    · cases step
      exact .write _ notTail notHead fun address here => by cases here
  | exchangeDel first next =>
    simp only [stepDeq] at step
    split at step
    · cases step
      exact .write _ (by simp) (by simp) fun address here => by cases here
    · cases step
      exact .read fun address here => by cases here

/-! ### The invariant -/

/-- The state, its queue and the durable part of it. -/
structure Recoverable (state : State) (view : View) (image : Image) : Prop where
  sound : Sound state view
  persists : Persists state.store.durable view image
  flushed : ∀ thread address, (state.threads thread).flushed = some address →
    state.store.durable address ≠ none
  fresh : ∀ thread node, (state.threads thread).Owns state.store.memory thread node →
    state.store.durable (.next node) = none ∧ state.store.durable (.delThreadIndex node) = none

theorem Recoverable.start (sentinel : Nat) :
    Recoverable (.start sentinel) ⟨⟨[sentinel], 0, 0⟩, 0⟩ ⟨0, 0, 1, 0⟩ where
  sound := .start sentinel
  persists :=
    { head := rfl
      tail := rfl
      next := fun index node here => by
        rw [List.getElem?_take_eq_none (Nat.le_add_left 1 index)]
        rfl
      marks := fun index node _ =>
        ⟨fun marked => absurd rfl marked, fun below => absurd below (Nat.not_lt_zero index)⟩
      head_le := Nat.le_refl _
      tail_le := Nat.le_refl _
      tail_lt := Nat.zero_lt_one
      length_le := Nat.le_refl _
      head_le_marked := Nat.le_refl _
      marked_le := Nat.le_refl _ }
  flushed _ _ flushed := by cases flushed
  fresh _ _ owns := owns.elim

section Recoverable

variable {state after : State} {view view' : View} {image : Image}

/-- A durable word stays so when any word is flushed. -/
theorem durable_flush {store : Store} {address : Address} (flushed : store.durable address ≠ none)
    (written : store.memory address ≠ none) (now : Address) :
    (store.flush now).durable address ≠ none := by
  by_cases same : address = now
  · subst same
    rw [store.flush_self]
    exact written
  · rw [store.flush_of_ne same]
    exact flushed

/-- The words of a node to be linked have the value they have in memory. -/
theorem unwritten_flush {store : Store} {address : Address} (durable : store.durable address = none)
    (memory : store.memory address = none) (now : Address) :
    (store.flush now).durable address = none := by
  by_cases same : address = now
  · subst same
    rw [store.flush_self]
    exact memory
  · rw [store.flush_of_ne same]
    exact durable

/-- A step of a thread inside a call. -/
theorem Recoverable.step (recoverable : Recoverable state view image) {thread : Nat}
    {cell : Address} {event : Option Event} {store : Store} {pc : Pc}
    (sound : Sound ({ state with store := store }.goto thread pc) view')
    (effect : Effect state.store.memory view cell event store.memory view')
    (own : ∀ node, event = some (.link node) →
      (state.threads thread).Owns state.store.memory thread node)
    (guarded : Guarded state.store store (state.threads thread).flushed pc.flushed)
    (owns : ∀ other node,
      (Function.update state.threads thread pc other).Owns store.memory other node →
      (state.threads other).Owns state.store.memory other node) :
    ∃ image', Recoverable ({ state with store := store }.goto thread pc) view' image' := by
  have shape := recoverable.sound.shape
  have moved : Persists state.store.durable view' image := by
    refine recoverable.persists.effect shape effect
      (fun node links => recoverable.fresh thread node (own node links)) (fun changed => ?_)
      fun changed => ?_
    · obtain ⟨last, points, flushed⟩ := guarded.tail changed
      exact ⟨last, points, recoverable.flushed thread _ flushed⟩
    · obtain ⟨first, points, flushed⟩ := guarded.head changed
      exact ⟨first, points, recoverable.flushed thread _ flushed⟩
  have persists : ∃ image', Persists store.durable view' image' := by
    rcases guarded.durable with same | ⟨address, rfl⟩
    · rw [same]
      exact ⟨image, moved⟩
    · exact moved.flush sound.shape address
  obtain ⟨image', persists⟩ := persists
  have kept : ∀ address, state.store.durable address ≠ none → store.memory address ≠ none →
      store.durable address ≠ none := by
    intro address flushed written
    rcases guarded.durable with same | ⟨now, rfl⟩
    · rw [same]
      exact flushed
    · exact durable_flush flushed written now
  refine ⟨image', sound, persists, fun other address flushed => ?_, fun other node owned => ?_⟩
  · have written := (sound.fits other).written sound.shape flushed
    rw [State.goto_threads] at flushed
    by_cases same : other = thread
    · subst same
      rw [Function.update_self] at flushed
      rcases guarded.flushed address flushed with before | rfl
      · exact kept address (recoverable.flushed other address before) written.1
      · show (state.store.flush address).durable address ≠ none
        rw [state.store.flush_self]
        exact written.1
    · rw [Function.update_of_ne same] at flushed
      exact kept address (recoverable.flushed other address flushed) written.1
  · obtain ⟨next, del⟩ := recoverable.fresh other node (owns other node owned)
    obtain ⟨⟨-, alone, unmarked⟩, -⟩ := recoverable.sound.owns other node (owns other node owned)
    rw [State.goto_store]
    rcases guarded.durable with same | ⟨now, rfl⟩
    · rw [same]
      exact ⟨next, del⟩
    · exact ⟨unwritten_flush next alone now, unwritten_flush del unmarked now⟩

theorem ThreadSteps.guarded {thread : Nat} {store : Store} {pc : Pc}
    (steps : ThreadSteps state thread store pc) :
    Guarded state.store store (state.threads thread).flushed pc.flushed := by
  cases steps with
  | load newNode detectType here cell => exact .read fun address flushed => by cases flushed
  | enq newNode detectType enqPc store following here step =>
    rw [here]
    have isCell : Address.IsCell (.enqCell thread) := trivial
    exact stepEnq_guarded isCell step
  | deq threadIndex detectType deqPc store following here step =>
    rw [here]
    have isCell : Address.IsCell (.deqCell thread) := trivial
    exact stepDeq_guarded isCell step

theorem Recoverable.enq (recoverable : Recoverable state view image) {thread node : Nat}
    {detectType : Int} (step : state.next (.enq thread node detectType) = some after) :
    Recoverable after view image := by
  have sound := (recoverable.sound.enq step).1
  simp only [State.next] at step
  split at step
  · next allowed =>
    obtain ⟨idle, new⟩ := allowed
    cases step
    have isNot : ∀ other ∈ state.used, other ≠ node := by
      rintro other member rfl
      exact new member
    have linked : ∀ other ∈ view.order, other ≠ node :=
      fun other member => isNot other (recoverable.sound.used other member)
    have persists := recoverable.persists
    refine
      { sound := sound
        persists := { persists with
          head := (prepare_head _ thread node).trans persists.head
          tail := (prepare_tail _ thread node).trans persists.tail
          next := fun index other here =>
            (prepare_next _ (linked other (mem_of_index here))).trans (persists.next index other here)
          marks := fun index other here => by
            rw [State.goto_store, Store.prepare_durable,
              prepare_delThreadIndex _ (linked other (mem_of_index here))]
            exact persists.marks index other here }
        flushed := fun other address flushed => ?_
        fresh := fun other owned owns => ?_ }
    · obtain ⟨written, member, inside, same⟩ := (sound.fits other).written sound.shape flushed
      rw [State.goto_threads] at flushed
      by_cases acting : other = thread
      · rw [acting, Function.update_self] at flushed
        cases flushed
      · rw [Function.update_of_ne acting] at flushed
        have before := recoverable.flushed other address flushed
        rw [State.goto_store, Store.prepare_durable]
        rcases same with rfl | rfl
        · rw [prepare_next _ (linked member inside)]
          exact before
        · rw [prepare_delThreadIndex _ (linked member inside)]
          exact before
    · rw [State.goto_threads] at owns
      rw [State.goto_store, Store.prepare_durable]
      by_cases acting : other = thread
      · rw [acting, Function.update_self] at owns
        obtain rfl := Option.some.inj (owns.symm.trans (prepare_enqCell_self _ thread node))
        exact ⟨prepare_next_self _ _ _, prepare_delThreadIndex_self _ _ _⟩
      · rw [Function.update_of_ne acting] at owns
        have before := owns.congr (prepare_enqCell _ acting)
        have different := isNot owned (recoverable.sound.owns other owned before).2
        rw [prepare_next _ different, prepare_delThreadIndex _ different]
        exact recoverable.fresh other owned before
  · cases step

/-- Every step keeps the durable part of the queue. -/
theorem Recoverable.next (recoverable : Recoverable state view image) {action : Action}
    (step : state.next action = some after) :
    ∃ view' image', Recoverable after view' image' ∧ view.Le view' := by
  cases action with
  | enq thread node detectType => exact ⟨view, image, recoverable.enq step, .refl view⟩
  | deq thread threadIndex detectType =>
    simp only [State.next] at step
    split at step
    · cases step
      have sound : Sound (state.goto thread (.deq threadIndex detectType .loadHead)) view :=
        recoverable.sound.goto trivial (by simp) (fun _ owned => owned.elim) fun _ held => held.elim
      have effect : Effect state.store.memory view (.deqCell thread) none state.store.memory view :=
        .keep
      have owned : ∀ other node,
          (Function.update state.threads thread (.deq threadIndex detectType .loadHead) other).Owns
            state.store.memory other node → (state.threads other).Owns state.store.memory other node := by
        intro other node owned
        by_cases same : other = thread
        · rw [same, Function.update_self] at owned
          exact owned.elim
        · rw [Function.update_of_ne same] at owned
          exact owned
      obtain ⟨image', after⟩ := recoverable.step sound effect (fun _ links => by cases links)
        (.read fun _ flushed => by cases flushed) owned
      exact ⟨view, image', after, .refl view⟩
    · cases step
  | step thread =>
    obtain ⟨store, pc, steps, rfl⟩ := stepThread_cases step
    obtain ⟨view', moves⟩ := recoverable.sound.threadMoves steps
    obtain ⟨cell, isCell, effect⟩ := moves.effect
    obtain ⟨sound, -⟩ := recoverable.sound.effect isCell effect moves.own moves.notLoading moves.fits
      moves.owns moves.holds
    obtain ⟨image', after⟩ := recoverable.step sound effect moves.own steps.guarded
      fun other node owned =>
        (recoverable.sound.owned isCell effect moves.own moves.owns other node owned).1
    exact ⟨view', image', after, effect.le⟩
  | writeBack address =>
    cases step
    obtain ⟨image', persists⟩ := recoverable.persists.flush recoverable.sound.shape address
    refine ⟨view, image', ⟨{ recoverable.sound with }, persists,
      fun thread flushedWord flushed => ?_, fun thread node owns => ?_⟩, .refl view⟩
    · have written := (recoverable.sound.fits thread).written recoverable.sound.shape flushed
      exact durable_flush (recoverable.flushed thread flushedWord flushed) written.1 address
    · obtain ⟨next, del⟩ := recoverable.fresh thread node owns
      obtain ⟨⟨-, alone, unmarked⟩, -⟩ := recoverable.sound.owns thread node owns
      exact ⟨unwritten_flush next alone address, unwritten_flush del unmarked address⟩

/-- In every state of a run the durable part of the queue can be recovered; its first node is the
sentinel. -/
theorem recoverable_of_run (sentinel : Nat) (run : Run (system sentinel)) (index : Nat)
    (inside : index ≤ run.length) :
    ∃ view image, Recoverable (run.state index) view image ∧ view.order[0]? = some sentinel := by
  have starts : run.state 0 = .start sentinel := run.starts
  refine run.invariant_between (fun _ _ => True)
    (fun state => ∃ view image, Recoverable state view image ∧ view.order[0]? = some sentinel)
    (Nat.zero_le index) inside (fun _ _ _ => trivial) ?_ ?_
  · rw [starts]
    exact ⟨_, _, .start sentinel, rfl⟩
  · rintro before action after ⟨view, image, recoverable, first⟩ - step
    obtain ⟨view', image', after, later⟩ := recoverable.next step
    exact ⟨view', image', after, index_of_longer later.order first⟩

end Recoverable

end Pmwcas.MSQueueByOrgCas
