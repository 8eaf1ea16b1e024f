/-
This file models the recoverable queue lock of the benchmarks (`benchmarks/RecoverMutex.cc`,
`RecoverMutexUsingOrgMwcas`) and proves that it excludes, whatever processes crash and restart.

The two operations built from `MwCAS`, `processByOrgMwcas` and `dcasByOrgMwcas`, are atomic steps,
as the atomicity of `MwCAS` allows; every other load and store is a step of its own. A process that
crashes loses its local variables and calls `lock()` again.

The waiting processes form a queue through `prev`. Between two neighbours, `linked` of the later
one says whether it has written itself into `next` of the earlier one, and as long as it has not,
the earlier one cannot leave. A restarted process may repeat its linking step with an old `prev`,
but then `linked` is set and the step does nothing.
-/

import Mathlib.Data.List.Nodup
import Pmwcas.Library.Transition

namespace Pmwcas.RecoverMutex

open Transition

/-! ### Memory -/

/-- The words of the lock: `*tailPtr_` and the fields of the `QNode` of each process. -/
inductive Address where
  | tail
  | prev (p : Nat)
  | next (p : Nat)
  | linked (p : Nat)
  deriving DecidableEq, Repr

/-- A word: a number or the address of the `QNode` of a process. -/
inductive Value where
  | word (value : Nat)
  | node (p : Nat)
  deriving DecidableEq, Repr

/-- `NULL`. -/
def Value.null : Value := .word 0

abbrev Memory := Address → Value

/-- `processByOrgMwcas`: fetch the target, store the new value in it and the fetched value in the
second word. -/
def Memory.processByOrgMwcas (memory : Memory) (targetAddr storeAddr : Address) (newval : Value) :
    Memory :=
  Function.update (Function.update memory targetAddr newval) storeAddr (memory targetAddr)

/-- Both words hold the values `dcasByOrgMwcas` expects. -/
def Memory.Expects (memory : Memory) (targetAddr1 targetAddr2 : Address) (oldVal1 oldVal2 : Value) :
    Prop :=
  memory targetAddr1 = oldVal1 ∧ memory targetAddr2 = oldVal2

instance (memory : Memory) (targetAddr1 targetAddr2 : Address) (oldVal1 oldVal2 : Value) :
    Decidable (memory.Expects targetAddr1 targetAddr2 oldVal1 oldVal2) :=
  inferInstanceAs (Decidable (_ ∧ _))

/-- What a successful `dcasByOrgMwcas` leaves. -/
def Memory.dcasByOrgMwcas (memory : Memory) (targetAddr1 targetAddr2 : Address)
    (newVal1 newVal2 : Value) : Memory :=
  Function.update (Function.update memory targetAddr1 newVal1) targetAddr2 newVal2

/-! ### The system -/

/-- The next step of a process, with the local variables it has set. -/
inductive Pc where
  /-- The process is in neither call and calls `lock()` next. -/
  | outside
  /-- `lock()`: read the own `prev`. -/
  | loadPrev
  /-- `lock()`: `myNode_->next = NULL`. -/
  | clearNext
  /-- `lock()`: `myNode_->linked = 0`. -/
  | clearLinked
  /-- `lock()`: fetch and store `*tailPtr_` and the own `prev`. -/
  | enqueue
  /-- `lock()`: read the own `prev` again. -/
  | reloadPrev
  /-- `lock()`: write the own node into `next` of the node before. -/
  | link (prevValue : Value)
  /-- `lock()`: wait until the own `prev` is `NULL`. -/
  | spinPrev
  /-- The critical section. -/
  | critical
  /-- `unlock()`: compare and exchange `*tailPtr_` and the own `prev`. -/
  | dequeue
  /-- `unlock()`: wait until the own `next` is not `NULL`. -/
  | spinNext
  /-- `unlock()`: wait for the same through `GetValueProtected`. -/
  | spinNextProtected
  /-- `unlock()`: check that the own `next` is a clean pointer. -/
  | checkNext
  /-- `unlock()`: load the own `next`. -/
  | loadNext
  /-- `unlock()`: fetch and store `prev` of the next node and the own one. -/
  | handOver (next : Value)
  deriving DecidableEq, Repr

/-- A state of the lock and its processes. -/
structure State where
  memory : Memory
  pcs : Nat → Pc

/-- What can happen next. -/
inductive Action where
  | lock (p : Nat)
  | unlock (p : Nat)
  /-- The process performs the next step of its call. -/
  | step (p : Nat)
  /-- The process crashes, and will restart with `lock()`. -/
  | crash (p : Nat)
  deriving DecidableEq, Repr

instance : Inhabited Action := ⟨.step 0⟩

namespace State

/-- The free lock: every node points to itself. -/
def start : State where
  memory := fun
    | .tail => .null
    | .prev p => .node p
    | .next _ => .null
    | .linked _ => .word 0
  pcs := fun _ => .outside

def goto (state : State) (p : Nat) (pc : Pc) : State :=
  { state with pcs := Function.update state.pcs p pc }

def store (state : State) (address : Address) (value : Value) : State :=
  { state with memory := Function.update state.memory address value }

/-- What `lock()` does with the value of `prev` once the process is in the queue. -/
def afterPrev (prevValue : Value) : Pc :=
  if prevValue ≠ .null then .link prevValue else .critical

/-- One step of a process inside a call. -/
def stepProcess (state : State) (p : Nat) : Option State :=
  match state.pcs p with
  | .outside => none
  | .loadPrev =>
    some (state.goto p (if state.memory (.prev p) = .node p then .clearNext
      else afterPrev (state.memory (.prev p))))
  | .clearNext => some ((state.store (.next p) .null).goto p .clearLinked)
  | .clearLinked => some ((state.store (.linked p) (.word 0)).goto p .enqueue)
  | .enqueue =>
    some ({ state with
      memory := state.memory.processByOrgMwcas .tail (.prev p) (.node p) }.goto p .reloadPrev)
  | .reloadPrev => some (state.goto p (afterPrev (state.memory (.prev p))))
  | .link prevValue =>
    match prevValue with
    | .word _ => none
    | .node q =>
      if state.memory.Expects (.next q) (.linked p) .null (.word 0) then
        some ({ state with
          memory := state.memory.dcasByOrgMwcas (.next q) (.linked p) (.node p) (.word 1) }.goto p
            .spinPrev)
      else some (state.goto p .spinPrev)
  | .spinPrev =>
    some (state.goto p (if state.memory (.prev p) = .null then .critical else .spinPrev))
  | .critical => none
  | .dequeue =>
    if state.memory.Expects .tail (.prev p) (.node p) .null then
      some ({ state with
        memory := state.memory.dcasByOrgMwcas .tail (.prev p) .null (.node p) }.goto p .outside)
    else some (state.goto p .spinNext)
  | .spinNext =>
    some (state.goto p (if state.memory (.next p) = .null then .spinNext
      else .spinNextProtected))
  | .spinNextProtected =>
    some (state.goto p (if state.memory (.next p) = .null then .spinNextProtected
      else .checkNext))
  | .checkNext => some (state.goto p .loadNext)
  | .loadNext => some (state.goto p (.handOver (state.memory (.next p))))
  | .handOver next =>
    match next with
    | .word _ => none
    | .node q =>
      some ({ state with
        memory := state.memory.processByOrgMwcas (.prev q) (.prev p) .null }.goto p .outside)

/-- The steps of the system. -/
def next (state : State) : Action → Option State
  | .lock p => if state.pcs p = .outside then some (state.goto p .loadPrev) else none
  | .unlock p => if state.pcs p = .critical then some (state.goto p .dequeue) else none
  | .step p => state.stepProcess p
  | .crash p => some (state.goto p .outside)

end State

/-- The lock under any number of processes. -/
def system : System State Action :=
  .ofNext (fun state => state = .start) State.next

/-! ### The queue -/

/-- Between neighbours: the later one has linked itself to the earlier one, or neither of them
knows of it yet. -/
def Linking (memory : Memory) : Value → Nat → Prop
  | .node p, q => (memory (.linked q) = .word 1 ∧ memory (.next p) = .node q) ∨
    (memory (.linked q) = .word 0 ∧ memory (.next p) = .null)
  | .word _, _ => True

/-- The last process of the queue has no next one. -/
def Last (memory : Memory) : Value → Prop
  | .node p => memory (.next p) = .null
  | .word _ => True

/-- From `before` on, the processes follow each other through `prev` up to `*tailPtr_`. -/
def Chain (memory : Memory) : Value → List Nat → Prop
  | before, [] => memory .tail = before ∧ Last memory before
  | before, p :: rest => memory (.prev p) = before ∧ Linking memory before p ∧
    Chain memory (.node p) rest

/-- The queue of the lock, from the process with `prev == NULL` to the tail. -/
structure Queue (memory : Memory) (queue : List Nat) : Prop where
  nodup : queue.Nodup
  chain : Chain memory .null queue
  self : ∀ p, p ∉ queue → memory (.prev p) = .node p

theorem queue_start : Queue State.start.memory [] where
  nodup := List.nodup_nil
  chain := ⟨rfl, trivial⟩
  self _ _ := rfl

/-- Words that no one in the queue has do not matter. -/
theorem Chain.congr {memory memory' : Memory} {before : Value} {queue : List Nat}
    (chain : Chain memory before queue) (tail : memory' .tail = memory .tail)
    (first : ∀ p, before = .node p → memory' (.next p) = memory (.next p))
    (prev : ∀ p ∈ queue, memory' (.prev p) = memory (.prev p))
    (next : ∀ p ∈ queue, memory' (.next p) = memory (.next p))
    (linked : ∀ p ∈ queue, memory' (.linked p) = memory (.linked p)) :
    Chain memory' before queue := by
  induction queue generalizing before with
  | nil =>
    obtain ⟨there, last⟩ := chain
    refine ⟨tail.trans there, ?_⟩
    cases before with
    | word value => trivial
    | node p => exact (first p rfl).trans last
  | cons q rest inductionHypothesis =>
    obtain ⟨here, linking, chain⟩ := chain
    refine ⟨(prev q List.mem_cons_self).trans here, ?_, ?_⟩
    · cases before with
      | word value => trivial
      | node p =>
        simp only [Linking, linked q List.mem_cons_self, first p rfl]
        exact linking
    · refine inductionHypothesis chain ?_ (fun p member => prev p (List.mem_cons_of_mem _ member))
        (fun p member => next p (List.mem_cons_of_mem _ member))
        fun p member => linked p (List.mem_cons_of_mem _ member)
      intro p same
      cases same
      exact next q List.mem_cons_self

/-- A process joins the queue at its end. -/
theorem Chain.append {memory memory' : Memory} {before : Value} {queue : List Nat} {q : Nat}
    (chain : Chain memory before queue) (joined : memory' .tail = .node q)
    (last : memory' (.prev q) = memory .tail) (unlinked : memory' (.linked q) = .word 0)
    (alone : memory' (.next q) = .null)
    (first : ∀ p, before = .node p → memory' (.next p) = memory (.next p))
    (prev : ∀ p ∈ queue, memory' (.prev p) = memory (.prev p))
    (next : ∀ p ∈ queue, memory' (.next p) = memory (.next p))
    (linked : ∀ p ∈ queue, memory' (.linked p) = memory (.linked p)) :
    Chain memory' before (queue ++ [q]) := by
  induction queue generalizing before with
  | nil =>
    obtain ⟨there, none_⟩ := chain
    refine ⟨last.trans there, ?_, joined, alone⟩
    cases before with
    | word value => trivial
    | node p => exact .inr ⟨unlinked, (first p rfl).trans none_⟩
  | cons p rest inductionHypothesis =>
    obtain ⟨here, linking, chain⟩ := chain
    refine ⟨(prev p List.mem_cons_self).trans here, ?_, ?_⟩
    · cases before with
      | word value => trivial
      | node r =>
        simp only [Linking, linked p List.mem_cons_self, first r rfl]
        exact linking
    · refine inductionHypothesis chain ?_ (fun r member => prev r (List.mem_cons_of_mem _ member))
        (fun r member => next r (List.mem_cons_of_mem _ member))
        fun r member => linked r (List.mem_cons_of_mem _ member)
      intro r same
      cases same
      exact next p List.mem_cons_self

/-- Behind a process, `prev` leads to a process of the queue. -/
theorem Chain.exists_prev {memory : Memory} {queue : List Nat} {p q : Nat}
    (chain : Chain memory (.node p) queue) (member : q ∈ queue) :
    ∃ r ∈ p :: queue, memory (.prev q) = .node r := by
  induction queue generalizing p with
  | nil => cases member
  | cons s rest inductionHypothesis =>
    obtain ⟨first, -, chain⟩ := chain
    rcases List.mem_cons.1 member with rfl | behind
    · exact ⟨p, List.mem_cons_self, first⟩
    · obtain ⟨r, inQueue, there⟩ := inductionHypothesis chain behind
      exact ⟨r, List.mem_cons_of_mem _ inQueue, there⟩

/-- Neighbours: a process whose `prev` is another one comes right after it. -/
theorem Chain.exists_neighbours {memory : Memory} {before : Value} {queue : List Nat} {p q : Nat}
    (chain : Chain memory before queue) (nodup : queue.Nodup) (member : q ∈ queue) (here : memory (.prev q) = .node p)
    (other : before ≠ .node p) : ∃ front back, queue = front ++ p :: q :: back := by
  induction queue generalizing before with
  | nil => cases member
  | cons r rest inductionHypothesis =>
    obtain ⟨first, -, chain⟩ := chain
    obtain ⟨absent, nodup⟩ := List.nodup_cons.1 nodup
    have notFirst : q ≠ r := by
      rintro rfl
      exact other (first.symm.trans here)
    have inRest : q ∈ rest := (List.mem_cons.1 member).resolve_left notFirst
    by_cases same : r = p
    · subst same
      cases rest with
      | nil => cases inRest
      | cons s back =>
        by_cases now : q = s
        · subst now
          exact ⟨[], back, rfl⟩
        · have behind : q ∈ back := (List.mem_cons.1 inRest).resolve_left now
          obtain ⟨t, inQueue, there⟩ := chain.2.2.exists_prev behind
          rw [here] at there
          cases there
          exact absurd inQueue absent
    · obtain ⟨front, back, rfl⟩ := inductionHypothesis chain nodup inRest fun there => by
        cases there
        exact same rfl
      exact ⟨r :: front, back, rfl⟩

/-- A process of the queue links itself to the process before it. -/
theorem Chain.link {memory memory' : Memory} {before : Value} {front back : List Nat} {p q : Nat}
    (chain : Chain memory before (front ++ p :: q :: back))
    (nodup : (front ++ p :: q :: back).Nodup)
    (fresh : ∀ r, before = .node r → r ∉ front ++ p :: q :: back)
    (linked : memory' (.linked q) = .word 1) (next : memory' (.next p) = .node q)
    (tail : memory' .tail = memory .tail)
    (prevs : ∀ r, memory' (.prev r) = memory (.prev r))
    (nexts : ∀ r, r ≠ p → memory' (.next r) = memory (.next r))
    (linkeds : ∀ r, r ≠ q → memory' (.linked r) = memory (.linked r)) :
    Chain memory' before (front ++ p :: q :: back) := by
  have kept : ∀ r, Linking memory before r → before ≠ .node p → r ≠ q →
      Linking memory' before r := by
    intro r linking other different
    cases before with
    | word value => trivial
    | node s =>
      have notSame : s ≠ p := fun same => other (by rw [same])
      simp only [Linking, linkeds r different, nexts s notSame]
      exact linking
  have notFirst : before ≠ .node p := fun same => fresh p same (by simp)
  induction front generalizing before with
  | nil =>
    obtain ⟨first, linking, second, -, chain⟩ := chain
    simp only [List.nil_append, List.nodup_cons, List.mem_cons, not_or] at nodup
    obtain ⟨⟨notSame, notBehind⟩, notInBack, -⟩ := nodup
    refine ⟨(prevs p).trans first, kept p linking notFirst notSame, (prevs q).trans second,
      .inl ⟨linked, next⟩, ?_⟩
    refine chain.congr tail ?_ (fun r _ => prevs r) (fun r member => nexts r ?_)
      fun r member => linkeds r ?_
    · intro r same
      cases same
      exact nexts q (Ne.symm notSame)
    · rintro rfl
      exact notBehind member
    · rintro rfl
      exact notInBack member
  | cons r front inductionHypothesis =>
    obtain ⟨first, linking, chain⟩ := chain
    rw [List.cons_append, List.nodup_cons] at nodup
    obtain ⟨absent, nodup⟩ := nodup
    have different : r ≠ q := by
      rintro rfl
      exact absent (by simp)
    have notBefore : Value.node r ≠ .node p := by
      intro same
      cases same
      exact absent (by simp)
    refine ⟨(prevs r).trans first, kept r linking notFirst different, ?_⟩
    refine inductionHypothesis chain nodup ?_ ?_ notBefore
    · intro s same
      cases same
      exact absent
    · intro s linking other different
      have notSame : r ≠ p := fun same => other (by rw [same])
      simp only [Linking, linkeds s different, nexts r notSame]
      exact linking

namespace Queue

variable {memory : Memory} {queue : List Nat} {p q : Nat}

/-- The process with `prev == NULL` is the first one. -/
theorem eq_cons_of_null (holds : Queue memory queue) (here : memory (.prev p) = .null) :
    ∃ rest, queue = p :: rest := by
  have member : p ∈ queue := by
    by_contra absent
    rw [holds.self p absent] at here
    cases here
  have chain := holds.chain
  cases queue with
  | nil => cases member
  | cons r rest =>
    rcases List.mem_cons.1 member with rfl | behind
    · exact ⟨rest, rfl⟩
    · obtain ⟨s, -, there⟩ := chain.2.2.exists_prev behind
      rw [here] at there
      cases there

/-- At most one process has `prev == NULL`. -/
theorem eq_of_null (holds : Queue memory queue) (first : memory (.prev p) = .null)
    (second : memory (.prev q) = .null) : p = q := by
  obtain ⟨rest, rfl⟩ := holds.eq_cons_of_null first
  obtain ⟨others, same⟩ := holds.eq_cons_of_null second
  exact (List.cons.inj same).1

/-- `prev` of a process in the queue is `NULL` or another process. -/
theorem prev_cases (holds : Queue memory queue) (member : p ∈ queue) :
    memory (.prev p) = .null ∨ ∃ q, memory (.prev p) = .node q ∧
      ∃ front back, queue = front ++ q :: p :: back := by
  have chain := holds.chain
  cases queue with
  | nil => cases member
  | cons r rest =>
    rcases List.mem_cons.1 member with rfl | behind
    · exact .inl chain.1
    · obtain ⟨s, -, there⟩ := chain.2.2.exists_prev behind
      exact .inr ⟨s, there, holds.chain.exists_neighbours holds.nodup member there
        fun absurdly => nomatch absurdly⟩

/-- The processes in the queue are those whose `prev` is not themselves. -/
theorem mem_iff (holds : Queue memory queue) : p ∈ queue ↔ memory (.prev p) ≠ .node p := by
  constructor
  · intro member same
    rcases holds.prev_cases member with null | ⟨q, here, front, back, rfl⟩
    · rw [null] at same
      cases same
    · rw [here] at same
      cases same
      have nodup := holds.nodup
      simp [List.nodup_append] at nodup
  · intro different
    by_contra absent
    exact different (holds.self p absent)

/-- What neighbours know of each other. -/
theorem linking (holds : Queue memory queue) {front back : List Nat}
    (split : queue = front ++ p :: q :: back) : Linking memory (.node p) q := by
  have chain := holds.chain
  rw [split] at chain
  generalize Value.null = before at chain
  clear holds split
  induction front generalizing before with
  | nil => exact chain.2.2.2.1
  | cons r front inductionHypothesis => exact inductionHypothesis _ chain.2.2

/-- The last process has no next one. -/
theorem next_of_single (holds : Queue memory [p]) : memory (.next p) = .null :=
  holds.chain.2.2.2

end Queue

/-! ### The invariant -/

/-- What the program point of process `p` says about the queue. -/
def Fits (memory : Memory) (queue : List Nat) (p : Nat) : Pc → Prop
  | .outside => True
  | .loadPrev => True
  | .clearNext => p ∉ queue
  | .clearLinked => p ∉ queue ∧ memory (.next p) = .null
  | .enqueue => p ∉ queue ∧ memory (.next p) = .null ∧ memory (.linked p) = .word 0
  | .reloadPrev => p ∈ queue
  | .link prevValue => p ∈ queue ∧ (∃ q, prevValue = .node q) ∧
    (memory (.linked p) = .word 0 → memory (.prev p) = prevValue)
  | .spinPrev => p ∈ queue
  | .critical => memory (.prev p) = .null
  | .dequeue => memory (.prev p) = .null
  | .spinNext => memory (.prev p) = .null
  | .spinNextProtected => memory (.prev p) = .null ∧ memory (.next p) ≠ .null
  | .checkNext => memory (.prev p) = .null ∧ memory (.next p) ≠ .null
  | .loadNext => memory (.prev p) = .null ∧ memory (.next p) ≠ .null
  | .handOver next => memory (.prev p) = .null ∧ memory (.next p) = next ∧ next ≠ .null

/-- What a step of process `p` may do to another process: link itself to it, or, once it is linked
to `p`, set its `prev` to `NULL`. -/
structure Touches (memory memory' : Memory) (queue queue' : List Nat) (u : Nat) : Prop where
  member : u ∈ queue' ↔ u ∈ queue
  linked : memory' (.linked u) = memory (.linked u)
  next : memory' (.next u) = memory (.next u) ∨
    u ∈ queue ∧ memory (.next u) = .null ∧ memory' (.next u) ≠ .null
  prev : memory' (.prev u) = memory (.prev u) ∨
    memory (.linked u) = .word 1 ∧ memory (.prev u) ≠ .null ∧ memory' (.prev u) = .null

theorem Touches.fits {memory memory' : Memory} {queue queue' : List Nat} {u : Nat}
    (touches : Touches memory memory' queue queue' u) {pc : Pc} (fits : Fits memory queue u pc) :
    Fits memory' queue' u pc := by
  have outside : u ∉ queue → u ∉ queue' := fun absent there => absent (touches.member.1 there)
  have nextNull : u ∉ queue → memory (.next u) = .null → memory' (.next u) = .null := by
    intro absent null
    rcases touches.next with same | ⟨inside, -⟩
    · rw [same, null]
    · exact absurd inside absent
  have prevNull : memory (.prev u) = .null → memory' (.prev u) = .null := by
    intro null
    rcases touches.prev with same | ⟨-, notNull, -⟩
    · rw [same, null]
    · exact absurd null notNull
  have nextSame : memory (.next u) ≠ .null → memory' (.next u) = memory (.next u) := by
    intro notNull
    rcases touches.next with same | ⟨-, null, -⟩
    · exact same
    · exact absurd null notNull
  have nextNotNull : memory (.next u) ≠ .null → memory' (.next u) ≠ .null :=
    fun notNull => nextSame notNull ▸ notNull
  cases pc with
  | outside => trivial
  | loadPrev => trivial
  | clearNext => exact outside fits
  | clearLinked => exact ⟨outside fits.1, nextNull fits.1 fits.2⟩
  | enqueue => exact ⟨outside fits.1, nextNull fits.1 fits.2.1, touches.linked ▸ fits.2.2⟩
  | reloadPrev => exact touches.member.2 fits
  | link prevValue =>
    refine ⟨touches.member.2 fits.1, fits.2.1, fun unlinked => ?_⟩
    rw [touches.linked] at unlinked
    rcases touches.prev with same | ⟨linked, -⟩
    · rw [same]
      exact fits.2.2 unlinked
    · rw [unlinked] at linked
      cases linked
  | spinPrev => exact touches.member.2 fits
  | critical => exact prevNull fits
  | dequeue => exact prevNull fits
  | spinNext => exact prevNull fits
  | spinNextProtected => exact ⟨prevNull fits.1, nextNotNull fits.2⟩
  | checkNext => exact ⟨prevNull fits.1, nextNotNull fits.2⟩
  | loadNext => exact ⟨prevNull fits.1, nextNotNull fits.2⟩
  | handOver next =>
    have notNull : memory (.next u) ≠ .null := fits.2.1 ▸ fits.2.2
    exact ⟨prevNull fits.1, (nextSame notNull).trans fits.2.1, fits.2.2⟩

/-- The invariant of the lock. -/
def Invariant (state : State) : Prop :=
  ∃ queue, Queue state.memory queue ∧ ∀ p, Fits state.memory queue p (state.pcs p)

theorem invariant_start : Invariant .start :=
  ⟨[], queue_start, fun _ => trivial⟩

/-- A step that writes nothing. -/
theorem Invariant.goto {state : State} {queue : List Nat} {p : Nat} {pc : Pc}
    (holds : Queue state.memory queue) (fits : ∀ p, Fits state.memory queue p (state.pcs p))
    (own : Fits state.memory queue p pc) : Invariant (state.goto p pc) := by
  refine ⟨queue, holds, fun u => ?_⟩
  by_cases same : u = p
  · subst same
    simpa only [State.goto, Function.update_self] using own
  · simpa only [State.goto, Function.update_of_ne same] using fits u

/-- A step that writes memory. -/
theorem Invariant.write {state : State} {memory : Memory} {queue queue' : List Nat} {p : Nat}
    {pc : Pc} (fits : ∀ p, Fits state.memory queue p (state.pcs p))
    (holds : Queue memory queue')
    (others : ∀ u, u ≠ p → Touches state.memory memory queue queue' u)
    (own : Fits memory queue' p pc) :
    Invariant ({ state with memory := memory }.goto p pc) := by
  refine ⟨queue', holds, fun u => ?_⟩
  by_cases same : u = p
  · subst same
    simpa only [State.goto, Function.update_self] using own
  · have there := (others u same).fits (fits u)
    simpa only [State.goto, Function.update_of_ne same] using there

/-- `lock()` clears a field of a node outside of the queue. -/
theorem Queue.clear {memory : Memory} {queue : List Nat} {p : Nat} (holds : Queue memory queue)
    (absent : p ∉ queue) {address : Address} (own : address = .next p ∨ address = .linked p)
    (value : Value) : Queue (Function.update memory address value) queue := by
  have prevs : ∀ u, Function.update memory address value (.prev u) = memory (.prev u) := by
    intro u
    apply Function.update_of_ne
    rcases own with rfl | rfl <;> simp
  have nexts : ∀ u ∈ queue, Function.update memory address value (.next u) = memory (.next u) := by
    intro u member
    apply Function.update_of_ne
    rintro rfl
    rcases own with same | same
    · cases same
      exact absent member
    · cases same
  have linkeds : ∀ u ∈ queue,
      Function.update memory address value (.linked u) = memory (.linked u) := by
    intro u member
    apply Function.update_of_ne
    rintro rfl
    rcases own with same | same
    · cases same
    · cases same
      exact absent member
  have tails : Function.update memory address value .tail = memory .tail := by
    apply Function.update_of_ne
    rcases own with rfl | rfl <;> simp
  exact ⟨holds.nodup, holds.chain.congr tails (fun q same => nomatch same)
    (fun u _ => prevs u) nexts linkeds, fun u outside => (prevs u).trans (holds.self u outside)⟩

/-- The other processes do not see it. -/
theorem touches_clear (memory : Memory) (queue : List Nat) {p u : Nat} (different : u ≠ p)
    {address : Address} (own : address = .next p ∨ address = .linked p) (value : Value) :
    Touches memory (Function.update memory address value) queue queue u where
  member := Iff.rfl
  linked := by
    apply Function.update_of_ne
    rintro rfl
    rcases own with same | same
    · cases same
    · cases same
      exact different rfl
  next := .inl <| by
    apply Function.update_of_ne
    rintro rfl
    rcases own with same | same
    · cases same
      exact different rfl
    · cases same
  prev := .inl <| by
    apply Function.update_of_ne
    rcases own with rfl | rfl <;> simp

/-- `lock()` joins the queue. -/
theorem Queue.enqueue {memory : Memory} {queue : List Nat} {p : Nat} (holds : Queue memory queue)
    (absent : p ∉ queue) (alone : memory (.next p) = .null)
    (unlinked : memory (.linked p) = .word 0) :
    Queue (memory.processByOrgMwcas .tail (.prev p) (.node p)) (queue ++ [p]) where
  nodup := by
    rw [List.nodup_append]
    refine ⟨holds.nodup, List.nodup_singleton p, ?_⟩
    intro q inQueue r last same
    rw [List.mem_singleton] at last
    subst last
    subst same
    exact absent inQueue
  chain := by
    refine holds.chain.append ?_ ?_ ?_ ?_ (fun q same => nomatch same) ?_ ?_ ?_
    · simp [Memory.processByOrgMwcas]
    · simp [Memory.processByOrgMwcas]
    · simpa [Memory.processByOrgMwcas] using unlinked
    · simpa [Memory.processByOrgMwcas] using alone
    · intro q member
      have different : q ≠ p := fun same => absent (same ▸ member)
      simp [Memory.processByOrgMwcas, different]
    · intro q _
      simp [Memory.processByOrgMwcas]
    · intro q _
      simp [Memory.processByOrgMwcas]
  self := by
    intro q outside
    rw [List.mem_append, List.mem_singleton, not_or] at outside
    simp [Memory.processByOrgMwcas, outside.2, holds.self q outside.1]

theorem touches_enqueue (memory : Memory) (queue : List Nat) {p u : Nat} (different : u ≠ p) :
    Touches memory (memory.processByOrgMwcas .tail (.prev p) (.node p)) queue (queue ++ [p]) u where
  member := by simp [different]
  linked := by simp [Memory.processByOrgMwcas]
  next := .inl (by simp [Memory.processByOrgMwcas])
  prev := .inl (by simp [Memory.processByOrgMwcas, different])

/-- `lock()` links the node to the one before. -/
theorem Queue.link {memory : Memory} {queue : List Nat} {p q : Nat} (holds : Queue memory queue)
    (member : p ∈ queue) (here : memory (.prev p) = .node q) :
    Queue (memory.dcasByOrgMwcas (.next q) (.linked p) (.node p) (.word 1)) queue where
  nodup := holds.nodup
  chain := by
    obtain ⟨front, back, rfl⟩ := holds.chain.exists_neighbours holds.nodup member here
      fun absurdly => nomatch absurdly
    refine holds.chain.link holds.nodup (fun r same => nomatch same) ?_ ?_ ?_ ?_ ?_ ?_
    · simp [Memory.dcasByOrgMwcas]
    · simp [Memory.dcasByOrgMwcas]
    · simp [Memory.dcasByOrgMwcas]
    · intro r
      simp [Memory.dcasByOrgMwcas]
    · intro r different
      simp [Memory.dcasByOrgMwcas, different]
    · intro r different
      simp [Memory.dcasByOrgMwcas, different]
  self := by
    intro r outside
    simpa [Memory.dcasByOrgMwcas] using holds.self r outside

theorem touches_link {memory : Memory} {queue : List Nat} {p q u : Nat}
    (holds : Queue memory queue) (member : p ∈ queue) (here : memory (.prev p) = .node q)
    (free : memory (.next q) = .null) (different : u ≠ p) :
    Touches memory (memory.dcasByOrgMwcas (.next q) (.linked p) (.node p) (.word 1))
      queue queue u where
  member := Iff.rfl
  linked := by simp [Memory.dcasByOrgMwcas, different]
  next := by
    by_cases same : u = q
    · subst same
      obtain ⟨front, back, rfl⟩ := holds.chain.exists_neighbours holds.nodup member here
        fun absurdly => nomatch absurdly
      refine .inr ⟨by simp, free, ?_⟩
      simp [Memory.dcasByOrgMwcas, Value.null]
    · exact .inl (by simp [Memory.dcasByOrgMwcas, same])
  prev := .inl (by simp [Memory.dcasByOrgMwcas])

/-- `*tailPtr_` is in the queue, if the queue is not empty. -/
theorem Chain.exists_tail {memory : Memory} {before : Value} {p : Nat} {rest : List Nat}
    (chain : Chain memory before (p :: rest)) : ∃ r ∈ p :: rest, memory .tail = .node r := by
  induction rest generalizing before p with
  | nil => exact ⟨p, List.mem_cons_self, chain.2.2.1⟩
  | cons q rest inductionHypothesis =>
    obtain ⟨r, member, there⟩ := inductionHypothesis chain.2.2
    exact ⟨r, List.mem_cons_of_mem _ member, there⟩

/-- `unlock()` of the only process in the queue empties it. -/
theorem Queue.dequeue {memory : Memory} {queue : List Nat} {p : Nat} (holds : Queue memory queue)
    (last : memory .tail = .node p) (first : memory (.prev p) = .null) :
    queue = [p] ∧ Queue (memory.dcasByOrgMwcas .tail (.prev p) .null (.node p)) [] := by
  obtain ⟨rest, rfl⟩ := holds.eq_cons_of_null first
  have alone : rest = [] := by
    cases rest with
    | nil => rfl
    | cons q back =>
      obtain ⟨r, behind, there⟩ := holds.chain.2.2.exists_tail
      rw [last] at there
      cases there
      exact absurd behind (List.nodup_cons.1 holds.nodup).1
  subst alone
  refine ⟨rfl, List.nodup_nil, ⟨by simp [Memory.dcasByOrgMwcas], trivial⟩, ?_⟩
  intro q _
  by_cases same : q = p
  · subst same
    simp [Memory.dcasByOrgMwcas]
  · have outside : q ∉ [p] := by simpa using same
    simpa [Memory.dcasByOrgMwcas, same] using holds.self q outside

theorem touches_dequeue {memory : Memory} {p u : Nat} (different : u ≠ p) :
    Touches memory (memory.dcasByOrgMwcas .tail (.prev p) .null (.node p)) [p] [] u where
  member := by simp [different]
  linked := by simp [Memory.dcasByOrgMwcas]
  next := .inl (by simp [Memory.dcasByOrgMwcas])
  prev := .inl (by simp [Memory.dcasByOrgMwcas, different])

/-- The next one of the first process is the second one, and has linked itself. -/
theorem Queue.second {memory : Memory} {queue : List Nat} {p : Nat} {value : Value}
    (holds : Queue memory queue) (first : memory (.prev p) = .null)
    (next : memory (.next p) = value) (notNull : value ≠ .null) :
    ∃ q back, value = .node q ∧ queue = p :: q :: back ∧ memory (.linked q) = .word 1 := by
  obtain ⟨rest, rfl⟩ := holds.eq_cons_of_null first
  cases rest with
  | nil => exact absurd (next.symm.trans holds.next_of_single) notNull
  | cons q back =>
    have linking := holds.linking (show p :: q :: back = [] ++ p :: q :: back from rfl)
    rcases linking with ⟨linked, there⟩ | ⟨-, there⟩
    · exact ⟨q, back, next.symm.trans there, rfl, linked⟩
    · exact absurd (next.symm.trans there) notNull

/-- `unlock()` hands the lock over to the second process. -/
theorem Queue.handOver {memory : Memory} {p q : Nat} {back : List Nat}
    (holds : Queue memory (p :: q :: back)) :
    Queue (memory.processByOrgMwcas (.prev q) (.prev p) .null) (q :: back) := by
  obtain ⟨-, -, second, -, chain⟩ := holds.chain
  have nodup := holds.nodup
  simp only [List.nodup_cons, List.mem_cons, not_or] at nodup
  obtain ⟨⟨different, notBehind⟩, notInBack, nodup⟩ := nodup
  refine ⟨List.nodup_cons.2 ⟨notInBack, nodup⟩, ⟨?_, trivial, ?_⟩, ?_⟩
  · simp [Memory.processByOrgMwcas, Ne.symm different]
  · refine chain.congr (by simp [Memory.processByOrgMwcas]) ?_ ?_ ?_ ?_
    · intro r _
      simp [Memory.processByOrgMwcas]
    · intro r member
      have notSecond : r ≠ q := fun same => notInBack (same ▸ member)
      have notFirst : r ≠ p := fun same => notBehind (same ▸ member)
      simp [Memory.processByOrgMwcas, notSecond, notFirst]
    · intro r _
      simp [Memory.processByOrgMwcas]
    · intro r _
      simp [Memory.processByOrgMwcas]
  · intro r outside
    by_cases same : r = p
    · subst same
      simpa [Memory.processByOrgMwcas] using second
    · rw [List.mem_cons, not_or] at outside
      have absent : r ∉ p :: q :: back := by simp [same, outside.1, outside.2]
      simpa [Memory.processByOrgMwcas, same, outside.1] using holds.self r absent

theorem touches_handOver {memory : Memory} {p q u : Nat} {back : List Nat}
    (holds : Queue memory (p :: q :: back)) (linked : memory (.linked q) = .word 1)
    (different : u ≠ p) :
    Touches memory (memory.processByOrgMwcas (.prev q) (.prev p) .null) (p :: q :: back)
      (q :: back) u where
  member := by simp [different]
  linked := by simp [Memory.processByOrgMwcas]
  next := .inl (by simp [Memory.processByOrgMwcas])
  prev := by
    by_cases same : u = q
    · subst same
      refine .inr ⟨linked, ?_, by simp [Memory.processByOrgMwcas, different]⟩
      rw [holds.chain.2.2.1]
      simp [Value.null]
    · exact .inl (by simp [Memory.processByOrgMwcas, different, same])

/-! ### Every step keeps the invariant -/

theorem fits_afterPrev {memory : Memory} {queue : List Nat} {p : Nat} (holds : Queue memory queue)
    (member : p ∈ queue) : Fits memory queue p (State.afterPrev (memory (.prev p))) := by
  unfold State.afterPrev
  split
  · next notNull =>
    refine ⟨member, ?_, fun _ => rfl⟩
    rcases holds.prev_cases member with null | ⟨q, here, -⟩
    · exact absurd null notNull
    · exact ⟨q, here⟩
  · next null => exact not_not.1 null

theorem Invariant.stepProcess {state state' : State} {p : Nat} (invariant : Invariant state)
    (performed : state.stepProcess p = some state') : Invariant state' := by
  obtain ⟨queue, holds, fits⟩ := invariant
  have own := fits p
  unfold State.stepProcess at performed
  split at performed
  · cases performed
  · cases performed
    refine Invariant.goto holds fits ?_
    split
    · next self =>
      intro member
      exact holds.mem_iff.1 member self
    · next notSelf => exact fits_afterPrev holds (holds.mem_iff.2 notSelf)
  · next pc =>
    rw [pc] at own
    cases performed
    refine Invariant.write fits (holds.clear own (.inl rfl) .null)
      (fun u different => touches_clear _ queue different (.inl rfl) .null) ?_
    exact ⟨own, by simp⟩
  · next pc =>
    rw [pc] at own
    cases performed
    refine Invariant.write fits (holds.clear own.1 (.inr rfl) (.word 0))
      (fun u different => touches_clear _ queue different (.inr rfl) (.word 0)) ?_
    exact ⟨own.1, by simpa using own.2, by simp⟩
  · next pc =>
    rw [pc] at own
    cases performed
    refine Invariant.write fits (holds.enqueue own.1 own.2.1 own.2.2)
      (fun u different => touches_enqueue _ queue different) ?_
    simp [Fits]
  · next pc =>
    rw [pc] at own
    cases performed
    exact Invariant.goto holds fits (fits_afterPrev holds own)
  · next prevValue pc =>
    rw [pc] at own
    obtain ⟨member, ⟨q, rfl⟩, current⟩ := own
    simp only at performed
    split at performed
    · next expected =>
      cases performed
      have here := current expected.2
      exact Invariant.write fits (holds.link member here)
        (fun u different => touches_link holds member here expected.1 different) member
    · cases performed
      exact Invariant.goto holds fits member
  · next pc =>
    rw [pc] at own
    cases performed
    refine Invariant.goto holds fits ?_
    split
    · next null => exact null
    · exact own
  · cases performed
  · next pc =>
    rw [pc] at own
    split at performed
    · next expected =>
      cases performed
      obtain ⟨rfl, empty⟩ := holds.dequeue expected.1 expected.2
      exact Invariant.write fits empty (fun u different => touches_dequeue different) trivial
    · cases performed
      exact Invariant.goto holds fits own
  · next pc =>
    rw [pc] at own
    cases performed
    refine Invariant.goto holds fits ?_
    split
    · exact own
    · next notNull => exact ⟨own, notNull⟩
  · next pc =>
    rw [pc] at own
    cases performed
    refine Invariant.goto holds fits ?_
    split
    · exact own
    · exact own
  · next pc =>
    rw [pc] at own
    cases performed
    exact Invariant.goto holds fits own
  · next pc =>
    rw [pc] at own
    cases performed
    exact Invariant.goto holds fits ⟨own.1, rfl, own.2⟩
  · next value pc =>
    rw [pc] at own
    obtain ⟨first, there, notNull⟩ := own
    obtain ⟨q, back, rfl, rfl, linked⟩ := holds.second first there notNull
    cases performed
    exact Invariant.write fits holds.handOver
      (fun u different => touches_handOver holds linked different) trivial

theorem Invariant.next {state state' : State} {action : Action} (invariant : Invariant state)
    (performed : state.next action = some state') : Invariant state' := by
  cases action with
  | step p => exact invariant.stepProcess performed
  | lock p =>
    obtain ⟨queue, holds, fits⟩ := invariant
    simp only [State.next, Option.ite_none_right_eq_some, Option.some.injEq] at performed
    obtain ⟨-, rfl⟩ := performed
    exact Invariant.goto holds fits trivial
  | unlock p =>
    obtain ⟨queue, holds, fits⟩ := invariant
    simp only [State.next, Option.ite_none_right_eq_some, Option.some.injEq] at performed
    obtain ⟨inside, rfl⟩ := performed
    have own := fits p
    rw [inside] at own
    exact Invariant.goto holds fits own
  | crash p =>
    obtain ⟨queue, holds, fits⟩ := invariant
    cases performed
    exact Invariant.goto holds fits trivial

theorem Invariant.of_run (run : Run system) (index : Nat) (inside : index ≤ run.length) :
    Invariant (run.state index) :=
  run.invariant run.meets_true (fun _ started => started ▸ invariant_start)
    (fun _ _ _ holds _ step => holds.next step) index inside

/-! ### Mutual exclusion -/

/-- In this step `lock()` of process `p` returns. -/
def LockReturns (run : Run system) (p index : Nat) : Prop :=
  index < run.length ∧ run.action index = .step p ∧ (run.state (index + 1)).pcs p = .critical

/-- In this step `unlock()` of process `p` returns. -/
def UnlockReturns (run : Run system) (p index : Nat) : Prop :=
  index < run.length ∧ run.action index = .step p ∧ (run.state (index + 1)).pcs p = .outside

/-- No process is in the queue any more. -/
def Empties (memory' : Memory) : Prop :=
  memory' .tail = .null ∧ ∀ q, memory' (.prev q) = .node q

/-- Process `q`, the only one whose `prev` pointed to `p`, has got `prev == NULL`, and nobody else
but `p` has got another `prev`. -/
def HandsOver (memory memory' : Memory) (p q : Nat) : Prop :=
  (∀ r, memory (.prev r) = .node p ↔ r = q) ∧ memory' (.prev q) = .null ∧
    ∀ r, r ≠ p → r ≠ q → memory' (.prev r) = memory (.prev r)

/-- What the lock promises over a run. -/
structure MutualExclusion (run : Run system) : Prop where
  /-- The processes whose `prev` is not themselves form one chain from the process with
  `prev == NULL` to `*tailPtr_`. -/
  queue : ∀ index ≤ run.length, ∃ queue, Queue (run.state index).memory queue ∧
    (∀ p, p ∈ queue ↔ (run.state index).memory (.prev p) ≠ .node p) ∧
    ((run.state index).memory .tail = .null ↔ queue = [])
  exclusive : ∀ index ≤ run.length, ∀ p q, (run.state index).memory (.prev p) = .null →
    (run.state index).memory (.prev q) = .null → p = q
  /-- In the critical section is only the process with `prev == NULL`. -/
  critical : ∀ index ≤ run.length, ∀ p, (run.state index).pcs p = .critical →
    (run.state index).memory (.prev p) = .null
  locked : ∀ p index, LockReturns run p index →
    (run.state (index + 1)).memory (.prev p) = .null
  unlocked : ∀ p index, UnlockReturns run p index →
    (run.state (index + 1)).memory (.prev p) = .node p ∧
      (Empties (run.state (index + 1)).memory ∨
        ∃ q, HandsOver (run.state index).memory (run.state (index + 1)).memory p q)

theorem Queue.tail_eq_null_iff {memory : Memory} {queue : List Nat} (holds : Queue memory queue) :
    memory .tail = .null ↔ queue = [] := by
  have chain := holds.chain
  cases queue with
  | nil => exact ⟨fun _ => rfl, fun _ => chain.1⟩
  | cons p rest =>
    obtain ⟨r, -, there⟩ := chain.exists_tail
    rw [there]
    simp [Value.null]

theorem Invariant.prev_of_critical {state : State} {p : Nat} (invariant : Invariant state)
    (inside : state.pcs p = .critical) : state.memory (.prev p) = .null := by
  obtain ⟨queue, -, fits⟩ := invariant
  have own := fits p
  rw [inside] at own
  exact own

/-- `unlock()` returns from its compare and exchange of the tail or from handing the lock over. -/
theorem stepProcess_outside {state state' : State} {p : Nat}
    (performed : state.stepProcess p = some state') (returned : state'.pcs p = .outside) :
    (state.pcs p = .dequeue ∧ state.memory.Expects .tail (.prev p) (.node p) .null ∧
      state'.memory = state.memory.dcasByOrgMwcas .tail (.prev p) .null (.node p)) ∨
    ∃ q, state.pcs p = .handOver (.node q) ∧
      state'.memory = state.memory.processByOrgMwcas (.prev q) (.prev p) .null := by
  unfold State.stepProcess at performed
  split at performed
  case h_10 pc =>
    split at performed
    · next expected =>
      cases performed
      exact .inl ⟨pc, expected, rfl⟩
    · cases performed
      simp [State.goto] at returned
  case h_15 value pc =>
    split at performed
    · cases performed
    · next q =>
      cases performed
      exact .inr ⟨q, pc, rfl⟩
  case h_7 value pc =>
    split at performed
    · cases performed
    · split at performed <;> cases performed <;> simp [State.goto] at returned
  all_goals
    cases performed
    try simp only [State.goto, State.store, State.afterPrev, Function.update_self] at returned
    try split at returned
    all_goals try split at returned
    all_goals cases returned

theorem Queue.handsOver {memory : Memory} {p q : Nat} {back : List Nat}
    (holds : Queue memory (p :: q :: back)) :
    HandsOver memory (memory.processByOrgMwcas (.prev q) (.prev p) .null) p q := by
  have handed := holds.handOver
  have second := holds.chain.2.2.1
  refine ⟨fun r => ⟨fun there => ?_, fun same => same ▸ second⟩, handed.chain.1, ?_⟩
  · have member : r ∈ p :: q :: back := by
      by_contra absent
      rw [holds.self r absent] at there
      cases there
      exact absent List.mem_cons_self
    obtain ⟨front, rest, apart⟩ := holds.chain.exists_neighbours holds.nodup member there
      fun absurdly => nomatch absurdly
    cases front with
    | nil =>
      cases apart
      rfl
    | cons s front =>
      obtain ⟨rfl, behind⟩ := List.cons.inj apart
      rw [behind] at holds
      exact absurd (by simp) (List.nodup_cons.1 holds.nodup).1
  · intro r notFirst notSecond
    simp [Memory.processByOrgMwcas, notFirst, notSecond]

/-- What `unlock()` leaves when it returns. -/
theorem Invariant.unlocked {state state' : State} {p : Nat} (invariant : Invariant state)
    (performed : state.stepProcess p = some state') (outside : state'.pcs p = .outside) :
    state'.memory (.prev p) = .node p ∧
      (Empties state'.memory ∨ ∃ q, HandsOver state.memory state'.memory p q) := by
  obtain ⟨queue, holds, fits⟩ := invariant
  have own := fits p
  rcases stepProcess_outside performed outside with ⟨-, expected, written⟩ | ⟨q, pc, written⟩
  · obtain ⟨-, empty⟩ := holds.dequeue expected.1 expected.2
    rw [written]
    exact ⟨empty.self p List.not_mem_nil, .inl ⟨empty.chain.1,
      fun q => empty.self q List.not_mem_nil⟩⟩
  · rw [pc] at own
    obtain ⟨r, back, same, rfl, -⟩ := holds.second own.1 own.2.1 own.2.2
    cases same
    rw [written]
    refine ⟨holds.handOver.self p (List.nodup_cons.1 holds.nodup).1, .inr ⟨q, holds.handsOver⟩⟩

/-- The recoverable lock excludes, whatever processes crash. -/
theorem mutualExclusion_of_run (run : Run system) : MutualExclusion run where
  queue index inside := by
    obtain ⟨queue, holds, -⟩ := Invariant.of_run run index inside
    exact ⟨queue, holds, fun p => holds.mem_iff, holds.tail_eq_null_iff⟩
  exclusive index inside p q first second := by
    obtain ⟨queue, holds, -⟩ := Invariant.of_run run index inside
    exact holds.eq_of_null first second
  critical index inside p within := (Invariant.of_run run index inside).prev_of_critical within
  locked p index returns :=
    (Invariant.of_run run (index + 1) returns.1).prev_of_critical returns.2.2
  unlocked p index returns := by
    obtain ⟨inside, acts, outside⟩ := returns
    have performed := run.steps index inside
    rw [acts] at performed
    exact (Invariant.of_run run index (Nat.le_of_lt inside)).unlocked performed outside

/-- Process 1 crashes after it has joined the queue and process 0 in its critical section; both
restart with `lock()` and go through the lock. -/
def bothCrash : List Action :=
  [.lock 0, .step 0, .step 0, .step 0, .step 0, .step 0, .lock 1, .step 1, .step 1, .step 1,
    .step 1, .crash 1, .lock 1, .step 1, .step 1, .crash 0, .lock 0, .step 0, .unlock 0, .step 0,
    .step 0, .step 0, .step 0, .step 0, .step 0, .step 1, .unlock 1, .step 1]

/-- There `unlock()` of process 0 hands the lock over to process 1, whose `lock()` then returns. -/
theorem mutualExclusion_of_run_bothCrash : ∃ run : Run system, MutualExclusion run ∧
    run.length = 28 ∧ LockReturns run 0 17 ∧ UnlockReturns run 0 24 ∧
      HandsOver (run.state 24).memory (run.state 25).memory 0 1 ∧ LockReturns run 1 25 ∧
      UnlockReturns run 1 27 ∧ Empties (run.state 28).memory := by
  obtain ⟨run, length, states, actions⟩ := exists_run_of_next (fun state => state = .start)
    State.next rfl bothCrash (by decide)
  have exclusion := mutualExclusion_of_run run
  have returned : ∀ p index, index < 28 → bothCrash.getD index default = .step p → ∀ pc,
      (replay State.next (bothCrash.take (index + 1)) State.start).any
        (fun state => state.pcs p = pc) = true →
      index < run.length ∧ run.action index = .step p ∧ (run.state (index + 1)).pcs p = pc := by
    intro p index inside acts pc passes
    exact ⟨length ▸ inside, (actions index).trans acts,
      satisfies_of_replay (fun state => state.pcs p = pc) (states (index + 1)) passes⟩
  have first : UnlockReturns run 0 24 := returned 0 24 (by decide) rfl .outside (by decide)
  have last : UnlockReturns run 1 27 := returned 1 27 (by decide) rfl .outside (by decide)
  refine ⟨run, exclusion, length, returned 0 17 (by decide) rfl .critical (by decide), first, ?_,
    returned 1 25 (by decide) rfl .critical (by decide), last, ?_⟩
  · rcases (exclusion.unlocked 0 24 first).2 with ⟨absurdly, -⟩ | ⟨q, hands⟩
    · have there := satisfies_of_replay (fun state => state.memory .tail = .node 1) (states 25)
        (by decide)
      rw [absurdly] at there
      cases there
    · have there := satisfies_of_replay (fun state => state.memory (.prev 1) = .node 0) (states 24)
        (by decide)
      cases (hands.1 1).1 there
      exact hands
  · rcases (exclusion.unlocked 1 27 last).2 with empty | ⟨q, hands⟩
    · exact empty
    · have there := satisfies_of_replay (fun state => state.memory .tail = .null) (states 28)
        (by decide)
      obtain ⟨queue, holds, -, empty⟩ := exclusion.queue 28 (le_of_eq length.symm)
      cases empty.1 there
      exact ⟨there, fun q => holds.self q List.not_mem_nil⟩

end Pmwcas.RecoverMutex
