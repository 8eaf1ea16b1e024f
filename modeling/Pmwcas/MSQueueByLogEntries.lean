/-
This file is about the log entries of the log queue. A helper of `deq()` stores through
`first->logRemove_->node_` at some time after it has checked the head. As long as no such store finds
the entry in use by another operation than the one that has claimed `first`, an entry holds only the
node of its own operation, `enq()` links the node of its caller and `dequeue()` cleans the node it has
claimed; and a store that comes later breaks this.
-/

import Mathlib.Data.List.Nodup
import Pmwcas.MSQueueByLog

namespace Pmwcas.LogQueue

open Transition

/-! ### Operations and their entries -/

/-- The entry between `allocateLogEntry` and `reclaimLogEntry`. -/
def Pc.entry : Pc → Option Nat
  | .idle => none
  | .enq _ pc =>
    match pc with
    | .allocate => none
    | .setNode entry | .setNext entry | .setLogRemove entry | .loadNode entry | .loadTail entry _
    | .loadNext entry .. | .checkTail entry .. | .exchangeNext entry .. | .exchangeTail entry ..
    | .exchangeBehind entry .. | .reclaim entry => some entry
  | .deq pc =>
    match pc with
    | .allocate | .cleanDeqNode .. => none
    | .setNode entry | .loadHead entry | .loadTail entry _ | .loadNext entry .. | .checkHead entry ..
    | .exchangeTail entry .. | .exchangeRemove entry .. | .loadRemove entry .. | .storeNode entry ..
    | .exchangeHead entry .. | .checkHelp entry .. | .loadHelp entry .. | .storeHelp entry ..
    | .exchangeHelp entry .. | .loadNode entry _ | .reclaim entry .. => some entry

/-- The node whose `logRemove_` the dequeue has won. -/
def Pc.claimed : Pc → Option Nat
  | .deq (.loadRemove _ first _) | .deq (.storeNode _ first _ _) | .deq (.exchangeHead _ first _) =>
    some first
  | .deq (.loadNode _ claimed) | .deq (.reclaim _ claimed _) | .deq (.cleanDeqNode claimed _) => claimed
  | _ => none

/-- What the operation of a thread may put into its entry: the new node of an enqueue; `NULL`, with
which a dequeue begins, or the node it has claimed. -/
def Pc.Own : Pc → Option Nat → Prop
  | .idle, _ => False
  | .enq node _, value => value = some node
  | .deq pc, value => value = none ∨ value = (Pc.deq pc).claimed

/-- What a step does: it stores into `node_` of an entry, links a node, or claims one. -/
inductive Event
  | write (entry : Nat) (value : Option Nat)
  | link (node : Nat)
  | claim (node : Nat)
deriving DecidableEq

/-- The event of the next step of a thread. -/
def eventOf (memory : Memory) : Pc → Option Event
  | .enq node (.setNode entry) => some (.write entry (some node))
  | .enq _ (.exchangeNext _ newNode last) =>
    if memory.next last = none then some (.link newNode) else none
  | .deq (.setNode entry) => some (.write entry none)
  | .deq (.exchangeRemove _ first _) =>
    if memory.logRemove first = none then some (.claim first) else none
  | .deq (.storeNode _ first _ logRemove) | .deq (.storeHelp _ first _ logRemove) =>
    some (.write logRemove (some first))
  | _ => none

section Runs

variable {pools : Pools} {sentinel : Nat} (run : Run (system pools sentinel))

/-- The step of a thread with this event. -/
def Happens (thread : Nat) (event : Event) (index : Nat) : Prop :=
  index < run.length ∧ run.action index = .step thread ∧
    eventOf (run.state index).memory ((run.state index).threads thread) = some event

/-- The log entries are written only for their own operation. -/
structure OwnEntries : Prop where
  writes : ∀ thread entry value index, Happens run thread (.write entry value) index →
    ∀ user, ((run.state index).threads user).entry = some entry →
      ((run.state index).threads user).Own value
  links : ∀ thread node newNode pc index, Happens run thread (.link newNode) index →
    (run.state index).threads thread = .enq node pc → newNode = node
  claimsOnce : ∀ thread other node index index', Happens run thread (.claim node) index →
    Happens run other (.claim node) index' → index = index'
  claimed : ∀ thread node index, index ≤ run.length →
    ((run.state index).threads thread).claimed = some node →
    ∃ earlier < index, Happens run thread (.claim node) earlier ∧
      ∀ between, earlier < between → between ≤ index →
        ((run.state between).threads thread).claimed = some node
  reads : ∀ thread entry claimed deqNode index, index ≤ run.length →
    (run.state index).threads thread = .deq (.reclaim entry claimed deqNode) → deqNode = claimed
  hands : ∀ thread claimed deqNode index, index ≤ run.length →
    (run.state index).threads thread = .deq (.cleanDeqNode claimed deqNode) → claimed = some deqNode

end Runs

/-- A helper does not store into an entry that is in use by another operation than the one that has
claimed the node. -/
def InTime (state : State) (action : Action) : Prop :=
  ∀ thread, action = .step thread → ∀ entry first next logRemove,
    state.threads thread = .deq (.storeHelp entry first next logRemove) →
    ∀ user, (state.threads user).entry = some logRemove → (state.threads user).claimed = some first

/-! ### The invariant -/

/-- The node of an enqueue that is not linked yet. -/
def Pc.pending : Pc → Option Nat
  | .enq _ (.exchangeTail ..) | .enq _ (.reclaim _) => none
  | .enq node _ => some node
  | _ => none

/-- A node that other threads may reach. -/
def Public (state : State) (node : Nat) : Prop :=
  node ∈ state.used ∧ ∀ thread, (state.threads thread).pending ≠ some node

/-- The nodes a thread has found are reachable for all. -/
def Locals (Reach : Nat → Prop) : Pc → Prop
  | .enq node pc =>
    match pc with
    | .loadNext _ _ last | .exchangeNext _ _ last => Reach last
    | .checkTail _ _ last next => Reach last ∧ ∀ node, next = some node → Reach node
    | .exchangeBehind _ _ _ next => Reach next
    | .exchangeTail .. => Reach node
    | _ => True
  | .deq pc =>
    match pc with
    | .loadTail _ first | .loadNext _ first _ => Reach first
    | .checkHead _ first _ next | .exchangeRemove _ first next | .loadRemove _ first next
    | .storeNode _ first next _ | .exchangeHead _ first next | .checkHelp _ first next
    | .loadHelp _ first next | .storeHelp _ first next _ | .exchangeHelp _ first next =>
      Reach first ∧ ∀ node, next = some node → Reach node
    | .exchangeTail _ _ next => Reach next
    | _ => True
  | .idle => True

/-- What the entry of a thread holds, and what the thread has read of it. -/
def Holds (memory : Memory) : Pc → Prop
  | .enq node pc =>
    match pc with
    | .setNext entry | .setLogRemove entry | .loadNode entry => memory.entryNode entry = some node
    | .loadTail _ newNode | .loadNext _ newNode _ | .checkTail _ newNode _ _
    | .exchangeNext _ newNode _ | .exchangeTail _ newNode _ | .exchangeBehind _ newNode _ _ =>
      newNode = node
    | _ => True
  | .deq pc =>
    match pc with
    | .loadHead entry | .loadTail entry _ | .loadNext entry .. | .checkHead entry ..
    | .exchangeTail entry .. | .exchangeRemove entry .. | .checkHelp entry .. | .loadHelp entry ..
    | .storeHelp entry .. | .exchangeHelp entry .. => memory.entryNode entry = none
    | .loadRemove entry first _ => memory.logRemove first = some entry
    | .storeNode entry first _ logRemove => memory.logRemove first = some entry ∧ logRemove = entry
    | .exchangeHead entry first _ => memory.entryNode entry = some first
    | .loadNode entry claimed => memory.entryNode entry = claimed
    | .reclaim _ claimed deqNode => deqNode = claimed
    | .cleanDeqNode claimed deqNode => claimed = some deqNode
    | _ => True
  | .idle => True

/-- The nodes in the queue's words are reachable for all, and the others have no next one. -/
structure Reaches (Reach : Nat → Prop) (memory : Memory) : Prop where
  head : ∀ node, memory.head = some node → Reach node
  tail : ∀ node, memory.tail = some node → Reach node
  next : ∀ node, Reach node → ∀ other, memory.next node = some other → Reach other
  alone : ∀ node, ¬ Reach node → memory.next node = none

/-- The invariant of the system. -/
structure Sound (pools : Pools) (state : State) : Prop where
  reaches : Reaches (Public state) state.memory
  locals : ∀ thread, Locals (Public state) (state.threads thread)
  holds : ∀ thread, Holds state.memory (state.threads thread)
  entry : ∀ thread entry, (state.threads thread).entry = some entry →
    entry ∈ pools.entries thread ∧ entry ∉ state.memory.free thread
  free : ∀ thread, (state.memory.free thread).Nodup ∧
    ∀ entry ∈ state.memory.free thread, entry ∈ pools.entries thread
  pending : ∀ thread node, (state.threads thread).pending = some node → node ∈ state.used
  distinct : ∀ thread other node, (state.threads thread).pending = some node →
    (state.threads other).pending = some node → thread = other

/-! ### Effects -/

/-- The effect of a step of a thread on the memory. -/
inductive Effect (Reach : Nat → Prop) (memory : Memory) (thread : Nat) (pc : Pc) :
    Option Event → Memory → Prop
  | keep : Effect Reach memory thread pc none memory
  | write (entry : Nat) (value : Option Nat) :
    Effect Reach memory thread pc (some (.write entry value)) (memory.setNode entry value)
  | prepareNext (node : Nat) (mine : pc.pending = some node) :
    Effect Reach memory thread pc none (memory.setNext node none)
  | prepareRemove (node : Nat) (mine : pc.pending = some node) :
    Effect Reach memory thread pc none (memory.setLogRemove node none)
  | link (last node : Nat) (reach : Reach last) (mine : pc.pending = some node) :
    Effect Reach memory thread pc (some (.link node)) (memory.setNext last (some node))
  | tail (node : Nat) (reach : Reach node) :
    Effect Reach memory thread pc none { memory with tail := some node }
  | head (next : Option Nat) (reach : ∀ node, next = some node → Reach node) :
    Effect Reach memory thread pc none { memory with head := next }
  | claim (node entry : Nat) (reach : Reach node) (unclaimed : memory.logRemove node = none) :
    Effect Reach memory thread pc (some (.claim node)) (memory.setLogRemove node (some entry))
  | reclaim (entry : Nat) (mine : pc.entry = some entry) :
    Effect Reach memory thread pc none (memory.reclaimLogEntry thread entry)
  | allocate (entry : Nat) (rest : List Nat) (first : memory.free thread = entry :: rest) :
    Effect Reach memory thread pc none
      { memory with free := Function.update memory.free thread rest }

/-- How the entry of a thread changes in its step: it is kept, given back, or taken from the free
list. -/
def EntryMoves (memory memory' : Memory) (thread : Nat) (pc pc' : Pc) : Prop :=
  pc'.entry = pc.entry ∧ memory'.free = memory.free ∨
    (∃ entry, pc.entry = some entry ∧ pc'.entry = none ∧
      memory'.free = Function.update memory.free thread (memory.free thread ++ [entry])) ∨
    ∃ entry rest, memory.free thread = entry :: rest ∧ pc.entry = none ∧ pc'.entry = some entry ∧
      memory'.free = Function.update memory.free thread rest

section Steps

variable {Reach : Nat → Prop} {memory memory' : Memory} {thread node : Nat}

theorem Effect.exchangeTail {pc : Pc} {new : Nat} (reach : Reach new) (old : Option Nat) :
    Effect Reach memory thread pc none (memory.exchangeTail (some new) old) := by
  unfold Memory.exchangeTail
  split
  · exact .tail new reach
  · exact .keep

theorem Effect.exchangeHead {pc : Pc} {new : Option Nat} (reach : ∀ node, new = some node → Reach node)
    (old : Option Nat) : Effect Reach memory thread pc none (memory.exchangeHead new old) := by
  unfold Memory.exchangeHead
  split
  · exact .head new reach
  · exact .keep

theorem Memory.free_exchangeTail (memory : Memory) (new old : Option Nat) :
    (memory.exchangeTail new old).free = memory.free := by
  unfold Memory.exchangeTail
  split <;> rfl

theorem Memory.free_exchangeHead (memory : Memory) (new old : Option Nat) :
    (memory.exchangeHead new old).free = memory.free := by
  unfold Memory.exchangeHead
  split <;> rfl

theorem Memory.entryNode_exchangeHead (memory : Memory) (new old : Option Nat) :
    (memory.exchangeHead new old).entryNode = memory.entryNode := by
  unfold Memory.exchangeHead
  split <;> rfl

theorem Memory.entryNode_exchangeTail (memory : Memory) (new old : Option Nat) :
    (memory.exchangeTail new old).entryNode = memory.entryNode := by
  unfold Memory.exchangeTail
  split <;> rfl

/-- What is known of a step of a thread. -/
structure Stepped (Reach Reach' : Nat → Prop) (memory memory' : Memory) (thread : Nat) (pc pc' : Pc) :
    Prop where
  effect : Effect Reach memory thread pc (eventOf memory pc) memory'
  locals : (∀ node, Reach node → Reach' node) →
    (∀ node, eventOf memory pc = some (.link node) → Reach' node) → Locals Reach' pc'
  holds : Holds memory' pc'
  moves : EntryMoves memory memory' thread pc pc'
  pending : (∃ node, eventOf memory pc = some (.link node) ∧ pc.pending = some node ∧
    pc'.pending = none) ∨
    pc'.pending = pc.pending ∧ ∀ node, eventOf memory pc ≠ some (.link node)
  claimed : ∀ node, pc'.claimed = some node →
    pc.claimed = some node ∨ eventOf memory pc = some (.claim node)

section Kinds

variable {Reach' : Nat → Prop} {pc pc' : Pc}

/-- A step without an event that keeps the entry of its operation. -/
theorem Stepped.quiet (effect : Effect Reach memory thread pc none memory')
    (event : eventOf memory pc = none) (free : memory'.free = memory.free)
    (same : pc'.entry = pc.entry ∧ pc'.pending = pc.pending ∧ pc'.claimed = pc.claimed)
    (locals : (∀ node, Reach node → Reach' node) → Locals Reach' pc') (holds : Holds memory' pc') :
    Stepped Reach Reach' memory memory' thread pc pc' where
  effect := by
    rw [event]
    exact effect
  locals grows _ := locals grows
  holds := holds
  moves := .inl ⟨same.1, free⟩
  pending := by
    refine .inr ⟨same.2.1, fun node linked => ?_⟩
    rw [event] at linked
    cases linked
  claimed node claimed := .inl (same.2.2.symm.trans claimed)

/-- A step that only reads. -/
theorem Stepped.read (event : eventOf memory pc = none)
    (same : pc'.entry = pc.entry ∧ pc'.pending = pc.pending ∧ pc'.claimed = pc.claimed)
    (locals : (∀ node, Reach node → Reach' node) → Locals Reach' pc') (holds : Holds memory pc') :
    Stepped Reach Reach' memory memory thread pc pc' :=
  .quiet .keep event rfl same locals holds

/-- A store into `node_` of an entry. -/
theorem Stepped.write {entry : Nat} {value : Option Nat}
    (event : eventOf memory pc = some (.write entry value))
    (same : pc'.entry = pc.entry ∧ pc'.pending = pc.pending ∧ pc'.claimed = pc.claimed)
    (locals : (∀ node, Reach node → Reach' node) → Locals Reach' pc')
    (holds : Holds (memory.setNode entry value) pc') :
    Stepped Reach Reach' memory (memory.setNode entry value) thread pc pc' where
  effect := by
    rw [event]
    exact .write entry value
  locals grows _ := locals grows
  holds := holds
  moves := .inl ⟨same.1, rfl⟩
  pending := by
    refine .inr ⟨same.2.1, fun node linked => ?_⟩
    rw [event] at linked
    cases linked
  claimed node claimed := .inl (same.2.2.symm.trans claimed)

/-- An operation takes its entry. -/
theorem Stepped.allocate {entry : Nat} {rest : List Nat} (free : memory.free thread = entry :: rest)
    (event : eventOf memory pc = none)
    (before : pc.entry = none) (after : pc'.entry = some entry)
    (same : pc'.pending = pc.pending ∧ pc'.claimed = pc.claimed)
    (locals : Locals Reach' pc')
    (holds : Holds { memory with free := Function.update memory.free thread rest } pc') :
    Stepped Reach Reach' memory { memory with free := Function.update memory.free thread rest }
      thread pc pc' where
  effect := by
    rw [event]
    exact .allocate entry rest free
  locals _ _ := locals
  holds := holds
  moves := .inr (.inr ⟨entry, rest, free, before, after, rfl⟩)
  pending := by
    refine .inr ⟨same.1, fun node linked => ?_⟩
    rw [event] at linked
    cases linked
  claimed node claimed := .inl (same.2.symm.trans claimed)

/-- An operation gives its entry back. -/
theorem Stepped.reclaim {entry : Nat} (event : eventOf memory pc = none)
    (before : pc.entry = some entry) (after : pc'.entry = none) (pending : pc'.pending = pc.pending)
    (claimed : ∀ node, pc'.claimed = some node → pc.claimed = some node)
    (locals : Locals Reach' pc') (holds : Holds (memory.reclaimLogEntry thread entry) pc') :
    Stepped Reach Reach' memory (memory.reclaimLogEntry thread entry) thread pc pc' where
  effect := by
    rw [event]
    exact .reclaim entry before
  locals _ _ := locals
  holds := holds
  moves := .inr (.inl ⟨entry, before, after, rfl⟩)
  pending := by
    refine .inr ⟨pending, fun node linked => ?_⟩
    rw [event] at linked
    cases linked
  claimed node here := .inl (claimed node here)

end Kinds

/-- `enq()` has compared the tail. -/
theorem checkTail_stepped {Reach' : Nat → Prop} {entry newNode last : Nat} {next : Option Nat}
    {pc' : Option EnqPc} (locals : Locals Reach (.enq node (.checkTail entry newNode last next)))
    (holds : Holds memory (.enq node (.checkTail entry newNode last next)))
    (step : stepEnq memory thread node (.checkTail entry newNode last next) =
      some (memory', pc')) :
    Stepped Reach Reach' memory memory' thread (.enq node (.checkTail entry newNode last next))
      (.after (.enq node) pc') := by
  by_cases current : memory.tail = some last
  · cases next with
    | none =>
      rw [stepEnq, if_pos current] at step
      cases step
      exact .read rfl ⟨rfl, rfl, rfl⟩ (fun grows => grows _ locals.1) holds
    | some next =>
      rw [stepEnq, if_pos current] at step
      cases step
      exact .read rfl ⟨rfl, rfl, rfl⟩ (fun grows => grows _ (locals.2 next rfl)) holds
  · have again : stepEnq memory thread node (.checkTail entry newNode last next) =
        some (memory, some (.loadTail entry newNode)) := if_neg current
    rw [again] at step
    cases step
    exact .read rfl ⟨rfl, rfl, rfl⟩ (fun _ => trivial) holds

/-- `enq()` has tried to link its node. -/
theorem exchangeNext_stepped {Reach' : Nat → Prop} {entry newNode last : Nat} {pc' : Option EnqPc}
    (locals : Locals Reach (.enq node (.exchangeNext entry newNode last)))
    (holds : Holds memory (.enq node (.exchangeNext entry newNode last)))
    (step : stepEnq memory thread node (.exchangeNext entry newNode last) = some (memory', pc')) :
    Stepped Reach Reach' memory memory' thread (.enq node (.exchangeNext entry newNode last))
      (.after (.enq node) pc') := by
  have same : newNode = node := holds
  subst same
  by_cases end_ : memory.next last = none
  · rw [stepEnq, if_pos end_] at step
    cases step
    have event : eventOf memory (.enq newNode (.exchangeNext entry newNode last)) =
        some (.link newNode) := if_pos end_
    refine ⟨?_, fun _ linked => linked newNode event, rfl, .inl ⟨rfl, rfl⟩,
      .inl ⟨newNode, event, rfl, rfl⟩, nofun⟩
    rw [event]
    exact .link last newNode locals rfl
  · rw [stepEnq, if_neg end_] at step
    cases step
    exact .read (if_neg end_) ⟨rfl, rfl, rfl⟩ (fun _ => trivial) rfl

/-- A step of `enqueue()`. -/
theorem stepEnq_stepped {Reach' : Nat → Prop} {pc : EnqPc} {pc' : Option EnqPc}
    (reaches : Reaches Reach memory) (locals : Locals Reach (.enq node pc))
    (holds : Holds memory (.enq node pc))
    (step : stepEnq memory thread node pc = some (memory', pc')) :
    Stepped Reach Reach' memory memory' thread (.enq node pc) (.after (.enq node) pc') := by
  cases pc with
  | allocate =>
    cases free : memory.free thread with
    | nil =>
      rw [stepEnq, Memory.allocateLogEntry, free] at step
      cases step
    | cons entry rest =>
      rw [stepEnq, Memory.allocateLogEntry, free] at step
      cases step
      exact .allocate free rfl rfl rfl ⟨rfl, rfl⟩ trivial trivial
  | setNode entry =>
    cases step
    exact .write rfl ⟨rfl, rfl, rfl⟩ (fun _ => trivial) (Function.update_self _ _ _)
  | setNext entry =>
    cases step
    exact .quiet (.prepareNext node rfl) rfl rfl ⟨rfl, rfl, rfl⟩ (fun _ => trivial) holds
  | setLogRemove entry =>
    cases step
    exact .quiet (.prepareRemove node rfl) rfl rfl ⟨rfl, rfl, rfl⟩ (fun _ => trivial) holds
  | loadNode entry =>
    obtain ⟨newNode, read, ⟨⟩⟩ := Option.map_eq_some_iff.1 step
    have same : newNode = node := Option.some.inj (read.symm.trans holds)
    exact .read rfl ⟨rfl, rfl, rfl⟩ (fun _ => trivial) same
  | loadTail entry newNode =>
    obtain ⟨last, read, ⟨⟩⟩ := Option.map_eq_some_iff.1 step
    exact .read rfl ⟨rfl, rfl, rfl⟩ (fun grows => grows _ (reaches.tail last read)) holds
  | loadNext entry newNode last =>
    cases step
    exact .read rfl ⟨rfl, rfl, rfl⟩ (fun grows => ⟨grows _ locals, fun other found =>
      grows _ (reaches.next last locals other found)⟩) holds
  | checkTail => exact checkTail_stepped locals holds step
  | exchangeNext => exact exchangeNext_stepped locals holds step
  | exchangeTail entry newNode last =>
    have same : newNode = node := holds
    subst same
    cases step
    exact .quiet (.exchangeTail locals _) rfl (Memory.free_exchangeTail _ _ _) ⟨rfl, rfl, rfl⟩
      (fun _ => trivial) trivial
  | exchangeBehind entry newNode last next =>
    cases step
    exact .quiet (.exchangeTail locals _) rfl (Memory.free_exchangeTail _ _ _) ⟨rfl, rfl, rfl⟩
      (fun _ => trivial) holds
  | reclaim entry =>
    cases step
    exact .reclaim rfl rfl rfl rfl nofun trivial trivial

/-- The first node and its next one stay reachable. -/
theorem Locals.both {Reach' : Nat → Prop} {first : Nat} {next : Option Nat}
    (found : Reach first ∧ ∀ node, next = some node → Reach node)
    (grows : ∀ node, Reach node → Reach' node) :
    Reach' first ∧ ∀ node, next = some node → Reach' node :=
  ⟨grows _ found.1, fun node same => grows node (found.2 node same)⟩

section Dequeue

variable {Reach' : Nat → Prop} {entry first : Nat} {next : Option Nat} {pc' : Option DeqPc}

/-- `deq()` has compared the head. -/
theorem checkHead_stepped {last : Option Nat}
    (locals : Locals Reach (.deq (.checkHead entry first last next)))
    (holds : Holds memory (.deq (.checkHead entry first last next)))
    (step : stepDeq memory thread (.checkHead entry first last next) = some (memory', pc')) :
    Stepped Reach Reach' memory memory' thread (.deq (.checkHead entry first last next))
      (.after .deq pc') := by
  by_cases current : memory.head = some first
  · by_cases single : some first = last
    · cases next with
      | none =>
        rw [stepDeq, if_pos current, if_pos single] at step
        cases step
        exact .read rfl ⟨rfl, rfl, rfl⟩ (fun _ => trivial) holds
      | some next =>
        rw [stepDeq, if_pos current, if_pos single] at step
        cases step
        exact .read rfl ⟨rfl, rfl, rfl⟩ (fun grows => grows _ (locals.2 next rfl)) holds
    · have claims : stepDeq memory thread (.checkHead entry first last next) =
          some (memory, some (.exchangeRemove entry first next)) :=
        (if_pos current).trans (if_neg single)
      rw [claims] at step
      cases step
      exact .read rfl ⟨rfl, rfl, rfl⟩ (Locals.both locals) holds
  · have again : stepDeq memory thread (.checkHead entry first last next) =
        some (memory, some (.loadHead entry)) := if_neg current
    rw [again] at step
    cases step
    exact .read rfl ⟨rfl, rfl, rfl⟩ (fun _ => trivial) holds

/-- `deq()` has tried to claim the first node. -/
theorem exchangeRemove_stepped (locals : Locals Reach (.deq (.exchangeRemove entry first next)))
    (holds : Holds memory (.deq (.exchangeRemove entry first next)))
    (step : stepDeq memory thread (.exchangeRemove entry first next) = some (memory', pc')) :
    Stepped Reach Reach' memory memory' thread (.deq (.exchangeRemove entry first next))
      (.after .deq pc') := by
  by_cases unclaimed : memory.logRemove first = none
  · rw [stepDeq, if_pos unclaimed] at step
    cases step
    have event : eventOf memory (.deq (.exchangeRemove entry first next)) = some (.claim first) :=
      if_pos unclaimed
    refine ⟨?_, fun grows _ => Locals.both locals grows, Function.update_self _ _ _, .inl ⟨rfl, rfl⟩,
      .inr ⟨rfl, ?_⟩, fun node same => ?_⟩
    · rw [event]
      exact .claim first entry locals.1 unclaimed
    · rw [event]
      nofun
    · cases same
      exact .inr event
  · rw [stepDeq, if_neg unclaimed] at step
    cases step
    exact .read (if_neg unclaimed) ⟨rfl, rfl, rfl⟩ (Locals.both locals) holds

/-- A dequeue has moved the head, and what it knows of its entry stays. -/
theorem exchangeHead_stepped {pc pc' : Pc} (reach : ∀ node, next = some node → Reach node)
    (event : eventOf memory pc = none)
    (same : pc'.entry = pc.entry ∧ pc'.pending = pc.pending ∧ pc'.claimed = pc.claimed)
    (locals : Locals Reach' pc') (holds : Holds (memory.exchangeHead next (some first)) pc') :
    Stepped Reach Reach' memory (memory.exchangeHead next (some first)) thread pc pc' :=
  .quiet (.exchangeHead reach _) event (Memory.free_exchangeHead _ _ _) same (fun _ => locals) holds

/-- The helper has stored into the entry of the dequeue that it helps. -/
theorem storeHelp_stepped {logRemove : Nat} (other : entry ≠ logRemove)
    (locals : Locals Reach (.deq (.storeHelp entry first next logRemove)))
    (holds : Holds memory (.deq (.storeHelp entry first next logRemove)))
    (step : stepDeq memory thread (.storeHelp entry first next logRemove) = some (memory', pc')) :
    Stepped Reach Reach' memory memory' thread (.deq (.storeHelp entry first next logRemove))
      (.after .deq pc') := by
  cases step
  refine .write rfl ⟨rfl, rfl, rfl⟩ (Locals.both locals) ?_
  show Function.update memory.entryNode logRemove (some first) entry = none
  rw [Function.update_of_ne other]
  exact holds

/-- A dequeue has given its entry back, after it has read its node. -/
theorem reclaim_stepped {claimed deqNode : Option Nat}
    (holds : Holds memory (.deq (.reclaim entry claimed deqNode)))
    (step : stepDeq memory thread (.reclaim entry claimed deqNode) = some (memory', pc')) :
    Stepped Reach Reach' memory memory' thread (.deq (.reclaim entry claimed deqNode))
      (.after .deq pc') := by
  have same : deqNode = claimed := holds
  subst same
  cases step
  cases deqNode with
  | none => exact .reclaim rfl rfl rfl rfl nofun trivial trivial
  | some deqNode => exact .reclaim rfl rfl rfl rfl (fun _ => id) trivial rfl

end Dequeue

/-- A step of `dequeue()`. -/
theorem stepDeq_stepped {Reach' : Nat → Prop} {pc : DeqPc} {pc' : Option DeqPc}
    (reaches : Reaches Reach memory) (locals : Locals Reach (.deq pc)) (holds : Holds memory (.deq pc))
    (other : ∀ entry first next logRemove, pc = .storeHelp entry first next logRemove →
      entry ≠ logRemove)
    (step : stepDeq memory thread pc = some (memory', pc')) :
    Stepped Reach Reach' memory memory' thread (.deq pc) (.after .deq pc') := by
  cases pc with
  | allocate =>
    cases free : memory.free thread with
    | nil =>
      rw [stepDeq, Memory.allocateLogEntry, free] at step
      cases step
    | cons entry rest =>
      rw [stepDeq, Memory.allocateLogEntry, free] at step
      cases step
      exact .allocate free rfl rfl rfl ⟨rfl, rfl⟩ trivial trivial
  | setNode entry =>
    cases step
    exact .write rfl ⟨rfl, rfl, rfl⟩ (fun _ => trivial) (Function.update_self _ _ _)
  | loadHead entry =>
    obtain ⟨first, read, ⟨⟩⟩ := Option.map_eq_some_iff.1 step
    exact .read rfl ⟨rfl, rfl, rfl⟩ (fun grows => grows _ (reaches.head first read)) holds
  | loadTail entry first =>
    cases step
    exact .read rfl ⟨rfl, rfl, rfl⟩ (fun grows => grows _ locals) holds
  | loadNext entry first last =>
    cases step
    exact .read rfl ⟨rfl, rfl, rfl⟩ (fun grows => ⟨grows _ locals, fun other found =>
      grows _ (reaches.next first locals other found)⟩) holds
  | checkHead => exact checkHead_stepped locals holds step
  | exchangeTail entry last next =>
    cases step
    exact .quiet (.exchangeTail locals _) rfl (Memory.free_exchangeTail _ _ _) ⟨rfl, rfl, rfl⟩
      (fun _ => trivial) ((congrFun (Memory.entryNode_exchangeTail _ _ _) entry).trans holds)
  | exchangeRemove => exact exchangeRemove_stepped locals holds step
  | loadRemove entry first next =>
    obtain ⟨logRemove, read, ⟨⟩⟩ := Option.map_eq_some_iff.1 step
    have same : logRemove = entry := Option.some.inj (read.symm.trans holds)
    exact .read rfl ⟨rfl, rfl, rfl⟩ (Locals.both locals) ⟨holds, same⟩
  | storeNode entry first next logRemove =>
    cases step
    obtain ⟨-, rfl⟩ := holds
    exact .write rfl ⟨rfl, rfl, rfl⟩ (Locals.both locals) (Function.update_self _ _ _)
  | exchangeHead entry first next =>
    cases step
    exact exchangeHead_stepped locals.2 rfl ⟨rfl, rfl, rfl⟩ trivial
      ((congrFun (Memory.entryNode_exchangeHead _ _ _) entry).trans holds)
  | checkHelp entry first next =>
    rw [stepDeq] at step
    split at step
    · cases step
      exact .read rfl ⟨rfl, rfl, rfl⟩ (Locals.both locals) holds
    · cases step
      exact .read rfl ⟨rfl, rfl, rfl⟩ (fun _ => trivial) holds
  | loadHelp entry first next =>
    obtain ⟨logRemove, read, ⟨⟩⟩ := Option.map_eq_some_iff.1 step
    exact .read rfl ⟨rfl, rfl, rfl⟩ (Locals.both locals) holds
  | storeHelp entry first next logRemove =>
    exact storeHelp_stepped (other entry first next logRemove rfl) locals holds step
  | exchangeHelp entry first next =>
    cases step
    exact exchangeHead_stepped locals.2 rfl ⟨rfl, rfl, rfl⟩ trivial
      ((congrFun (Memory.entryNode_exchangeHead _ _ _) entry).trans holds)
  | loadNode entry claimed =>
    cases step
    exact .read rfl ⟨rfl, rfl, rfl⟩ (fun _ => trivial) holds
  | reclaim => exact reclaim_stepped holds step
  | cleanDeqNode claimed deqNode =>
    cases step
    exact ⟨.keep, fun _ _ => trivial, trivial, .inl ⟨rfl, rfl⟩, .inr ⟨rfl, nofun⟩, nofun⟩

/-- What is known of a step of a thread inside a call. -/
theorem stepThread_stepped {Reach' : Nat → Prop} {pc pc' : Pc} (reaches : Reaches Reach memory)
    (locals : Locals Reach pc) (holds : Holds memory pc)
    (other : ∀ entry first next logRemove, pc = .deq (.storeHelp entry first next logRemove) →
      entry ≠ logRemove)
    (step : stepThread memory thread pc = some (memory', pc')) :
    Stepped Reach Reach' memory memory' thread pc pc' := by
  cases pc with
  | idle => cases step
  | enq node pc =>
    obtain ⟨⟨memory'', pc''⟩, stepped, ⟨⟩⟩ := Option.map_eq_some_iff.1 step
    exact stepEnq_stepped reaches locals holds stepped
  | deq pc =>
    obtain ⟨⟨memory'', pc''⟩, stepped, ⟨⟩⟩ := Option.map_eq_some_iff.1 step
    refine stepDeq_stepped reaches locals holds (fun entry first next logRemove same => ?_) stepped
    exact other entry first next logRemove (by rw [same])

end Steps

/-! ### What the other threads keep -/

section Kept

variable {Reach Reach' : Nat → Prop} {memory memory' : Memory} {thread : Nat} {pc : Pc}
  {event : Option Event}

theorem Locals.mono (grows : ∀ node, Reach node → Reach' node) (locals : Locals Reach pc) :
    Locals Reach' pc := by
  cases pc with
  | idle => trivial
  | enq node pc =>
    cases pc with
    | loadNext | exchangeNext | exchangeBehind | exchangeTail => exact grows _ locals
    | checkTail => exact Locals.both locals grows
    | allocate | setNode | setNext | setLogRemove | loadNode | loadTail | reclaim => trivial
  | deq pc =>
    cases pc with
    | loadTail | loadNext | exchangeTail => exact grows _ locals
    | checkHead | exchangeRemove | loadRemove | storeNode | exchangeHead | checkHelp | loadHelp
    | storeHelp | exchangeHelp => exact Locals.both locals grows
    | allocate | setNode | loadHead | loadNode | reclaim | cleanDeqNode => trivial

/-- What a thread holds depends on `node_` of its entry and on `logRemove_` of the node it has
claimed. -/
theorem Holds.congr (holds : Holds memory pc) (locals : Locals Reach pc)
    (entryNode : ∀ entry, pc.entry = some entry →
      memory'.entryNode entry = memory.entryNode entry ∨
        ∃ node, pc.claimed = some node ∧ memory'.entryNode entry = some node)
    (logRemove : ∀ node entry, Reach node → memory.logRemove node = some entry →
      memory'.logRemove node = some entry) : Holds memory' pc := by
  have unclaimed : ∀ {entry value}, pc.entry = some entry → pc.claimed = none →
      memory.entryNode entry = value → memory'.entryNode entry = value := by
    intro entry value uses none_ holds
    rcases entryNode entry uses with same | ⟨node, claimed, -⟩
    · exact same.trans holds
    · rw [none_] at claimed
      cases claimed
  have withClaim : ∀ {entry value}, pc.entry = some entry → pc.claimed = value →
      memory.entryNode entry = value → memory'.entryNode entry = value := by
    intro entry value uses claim holds
    rcases entryNode entry uses with same | ⟨node, claimed, same⟩
    · exact same.trans holds
    · exact same.trans (claimed.symm.trans claim)
  cases pc with
  | idle => trivial
  | enq node pc =>
    cases pc with
    | setNext | setLogRemove | loadNode => exact unclaimed rfl rfl holds
    | loadTail | loadNext | checkTail | exchangeNext | exchangeTail | exchangeBehind => exact holds
    | allocate | setNode | reclaim => trivial
  | deq pc =>
    cases pc with
    | loadHead | loadTail | loadNext | checkHead | exchangeTail | exchangeRemove | checkHelp | loadHelp
    | storeHelp | exchangeHelp => exact unclaimed rfl rfl holds
    | loadRemove => exact logRemove _ _ locals.1 holds
    | storeNode => exact ⟨logRemove _ _ locals.1 holds.1, holds.2⟩
    | exchangeHead | loadNode => exact withClaim rfl rfl holds
    | reclaim | cleanDeqNode => exact holds
    | allocate | setNode => trivial

/-- `node_` of an entry changes only in a step that stores into it. -/
theorem Effect.entryNode (effect : Effect Reach memory thread pc event memory') (entry : Nat) :
    memory'.entryNode entry = memory.entryNode entry ∨
      ∃ value, event = some (.write entry value) ∧ memory'.entryNode entry = value := by
  cases effect with
  | write other value =>
    by_cases same : entry = other
    · subst same
      exact .inr ⟨value, rfl, Function.update_self _ _ _⟩
    · exact .inl (Function.update_of_ne same _ _)
  | keep => exact .inl rfl
  | prepareNext => exact .inl rfl
  | prepareRemove => exact .inl rfl
  | link => exact .inl rfl
  | tail => exact .inl rfl
  | head => exact .inl rfl
  | claim => exact .inl rfl
  | reclaim => exact .inl rfl
  | allocate => exact .inl rfl

/-- A claim of a node that is reachable for all stays. -/
theorem Effect.logRemove (effect : Effect Reach memory thread pc event memory')
    (private_ : ∀ node, pc.pending = some node → ¬ Reach node) {node entry : Nat} (reach : Reach node)
    (claimed : memory.logRemove node = some entry) : memory'.logRemove node = some entry := by
  cases effect with
  | prepareRemove other mine =>
    have different : node ≠ other := by
      rintro rfl
      exact private_ node mine reach
    exact (Function.update_of_ne different _ _).trans claimed
  | claim other _ _ unclaimed =>
    have different : node ≠ other := by
      rintro rfl
      rw [claimed] at unclaimed
      cases unclaimed
    exact (Function.update_of_ne different _ _).trans claimed
  | keep => exact claimed
  | write => exact claimed
  | prepareNext => exact claimed
  | link => exact claimed
  | tail => exact claimed
  | head => exact claimed
  | reclaim => exact claimed
  | allocate => exact claimed

/-- The words of the queue after a step; a node becomes reachable when it is linked. -/
theorem Effect.reaches (effect : Effect Reach memory thread pc event memory')
    (reaches : Reaches Reach memory) (private_ : ∀ node, pc.pending = some node → ¬ Reach node)
    (grows : ∀ node, Reach node → Reach' node)
    (linked : ∀ node, event = some (.link node) → Reach' node) : Reaches Reach' memory' := by
  have aloneBefore : ∀ node, ¬ Reach' node → memory.next node = none :=
    fun node absent => reaches.alone node fun reach => absent (grows node reach)
  have nextBefore : ∀ node, Reach' node → ∀ other, memory.next node = some other → Reach' other := by
    intro node reach other found
    by_cases before : Reach node
    · exact grows other (reaches.next node before other found)
    · rw [reaches.alone node before] at found
      cases found
  have same : memory'.head = memory.head → memory'.tail = memory.tail → memory'.next = memory.next →
      Reaches Reach' memory' := by
    intro head tail next
    refine ⟨fun node found => ?_, fun node found => ?_, fun node reach other found => ?_,
      fun node absent => ?_⟩
    · exact grows node (reaches.head node (head ▸ found))
    · exact grows node (reaches.tail node (tail ▸ found))
    · exact nextBefore node reach other (next ▸ found)
    · rw [next]
      exact aloneBefore node absent
  cases effect with
  | keep => exact same rfl rfl rfl
  | write => exact same rfl rfl rfl
  | prepareRemove => exact same rfl rfl rfl
  | claim => exact same rfl rfl rfl
  | reclaim => exact same rfl rfl rfl
  | allocate => exact same rfl rfl rfl
  | prepareNext one mine =>
    have unchanged : Function.update memory.next one none = memory.next := by
      rw [Function.update_eq_self_iff]
      exact (reaches.alone one (private_ one mine)).symm
    exact same rfl rfl unchanged
  | link last one reachLast mine =>
    refine ⟨fun node found => grows node (reaches.head node found),
      fun node found => grows node (reaches.tail node found), fun node reach other found => ?_,
      fun node absent => ?_⟩
    · by_cases isLast : node = last
      · subst isLast
        rw [show (memory.setNext node (some one)).next node = some one from
          Function.update_self _ _ _] at found
        cases found
        exact linked one rfl
      · rw [show (memory.setNext last (some one)).next node = memory.next node from
          Function.update_of_ne isLast _ _] at found
        exact nextBefore node reach other found
    · have notLast : node ≠ last := by
        rintro rfl
        exact absent (grows node reachLast)
      rw [show (memory.setNext last (some one)).next node = memory.next node from
        Function.update_of_ne notLast _ _]
      exact aloneBefore node absent
  | tail one reach =>
    refine ⟨fun node found => grows node (reaches.head node found), fun node found => ?_, nextBefore,
      aloneBefore⟩
    cases found
    exact grows one reach
  | head next reach =>
    exact ⟨fun node found => grows node (reach node found),
      fun node found => grows node (reaches.tail node found), nextBefore, aloneBefore⟩

end Kept

/-! ### The whole system -/

theorem sound_start (pools : Pools) (sentinel : Nat) : Sound pools (.start pools sentinel) where
  reaches := {
    head := by
      rintro node ⟨⟩
      exact ⟨List.mem_singleton_self _, nofun⟩
    tail := by
      rintro node ⟨⟩
      exact ⟨List.mem_singleton_self _, nofun⟩
    next := nofun
    alone := fun _ _ => rfl }
  locals _ := trivial
  holds _ := trivial
  entry := nofun
  free thread := ⟨pools.nodup thread, fun _ member => member⟩
  pending := nofun
  distinct := nofun

section System

variable {pools : Pools} {state : State}

/-- A store into `node_` is one of the operation that uses the entry, or one of a helper. -/
theorem Sound.write_cases (sound : Sound pools state) {thread entry : Nat} {value : Option Nat}
    (event : eventOf state.memory (state.threads thread) = some (.write entry value)) :
    (state.threads thread).entry = some entry ∧ (state.threads thread).Own value ∨
      ∃ own first next, state.threads thread = .deq (.storeHelp own first next entry) ∧
        value = some first := by
  have holds := sound.holds thread
  match place : state.threads thread with
  | .enq node (.setNode _) =>
    rw [place] at event
    cases event
    exact .inl ⟨rfl, rfl⟩
  | .enq node (.exchangeNext _ newNode last) =>
    rw [place, eventOf] at event
    split at event <;> cases event
  | .deq (.setNode _) =>
    rw [place] at event
    cases event
    exact .inl ⟨rfl, .inl rfl⟩
  | .deq (.exchangeRemove _ first _) =>
    rw [place, eventOf] at event
    split at event <;> cases event
  | .deq (.storeNode own first next logRemove) =>
    rw [place] at event holds
    cases event
    exact .inl ⟨congrArg some holds.2.symm, .inr rfl⟩
  | .deq (.storeHelp own first next logRemove) =>
    rw [place] at event
    cases event
    exact .inr ⟨own, first, next, rfl, rfl⟩
  | .idle => rw [place] at event; cases event
  | .enq _ .allocate => rw [place] at event; cases event
  | .enq _ (.setNext _) => rw [place] at event; cases event
  | .enq _ (.setLogRemove _) => rw [place] at event; cases event
  | .enq _ (.loadNode _) => rw [place] at event; cases event
  | .enq _ (.loadTail ..) => rw [place] at event; cases event
  | .enq _ (.loadNext ..) => rw [place] at event; cases event
  | .enq _ (.checkTail ..) => rw [place] at event; cases event
  | .enq _ (.exchangeTail ..) => rw [place] at event; cases event
  | .enq _ (.exchangeBehind ..) => rw [place] at event; cases event
  | .enq _ (.reclaim _) => rw [place] at event; cases event
  | .deq .allocate => rw [place] at event; cases event
  | .deq (.loadHead _) => rw [place] at event; cases event
  | .deq (.loadTail ..) => rw [place] at event; cases event
  | .deq (.loadNext ..) => rw [place] at event; cases event
  | .deq (.checkHead ..) => rw [place] at event; cases event
  | .deq (.exchangeTail ..) => rw [place] at event; cases event
  | .deq (.loadRemove ..) => rw [place] at event; cases event
  | .deq (.exchangeHead ..) => rw [place] at event; cases event
  | .deq (.checkHelp ..) => rw [place] at event; cases event
  | .deq (.loadHelp ..) => rw [place] at event; cases event
  | .deq (.exchangeHelp ..) => rw [place] at event; cases event
  | .deq (.loadNode ..) => rw [place] at event; cases event
  | .deq (.reclaim ..) => rw [place] at event; cases event
  | .deq (.cleanDeqNode ..) => rw [place] at event; cases event

/-- No two threads use one entry. -/
theorem Sound.user_unique (sound : Sound pools state) {thread other entry : Nat}
    (uses : (state.threads thread).entry = some entry)
    (uses' : (state.threads other).entry = some entry) : thread = other :=
  pools.disjoint thread other entry (sound.entry thread entry uses).1 (sound.entry other entry uses').1

theorem Pc.own_of_claimed {pc : Pc} {node : Nat} (claimed : pc.claimed = some node) :
    pc.Own (some node) := by
  cases pc with
  | idle => cases claimed
  | enq => cases claimed
  | deq pc => exact .inr claimed.symm

/-- A store into the entry of another thread is one of a helper, for the node that the other thread
has claimed. -/
theorem Sound.write_other (sound : Sound pools state) {thread user entry : Nat} {value : Option Nat}
    (inTime : InTime state (.step thread))
    (event : eventOf state.memory (state.threads thread) = some (.write entry value))
    (uses : (state.threads user).entry = some entry) :
    user = thread ∨ ∃ node, (state.threads user).claimed = some node ∧ value = some node := by
  rcases sound.write_cases event with ⟨mine, -⟩ | ⟨own, first, next, place, written⟩
  · exact .inl (sound.user_unique uses mine)
  · exact .inr ⟨first, inTime thread rfl own first next entry place user uses, written⟩

/-- Every store into the entry of an operation is for this operation. -/
theorem Sound.write_own (sound : Sound pools state) {thread user entry : Nat} {value : Option Nat}
    (inTime : InTime state (.step thread))
    (event : eventOf state.memory (state.threads thread) = some (.write entry value))
    (uses : (state.threads user).entry = some entry) : (state.threads user).Own value := by
  rcases sound.write_other inTime event uses with rfl | ⟨node, claimed, written⟩
  · rcases sound.write_cases event with ⟨-, own⟩ | ⟨own, first, next, place, written⟩
    · exact own
    · rw [written]
      exact Pc.own_of_claimed (inTime user rfl own first next entry place user uses)
  · rw [written]
    exact Pc.own_of_claimed claimed

/-- A step of a thread inside a call. -/
theorem Sound.step (sound : Sound pools state) {thread : Nat} (inTime : InTime state (.step thread))
    {memory' : Memory} {pc' : Pc}
    (step : stepThread state.memory thread (state.threads thread) = some (memory', pc')) :
    Sound pools ({ state with memory := memory' }.goto thread pc') ∧
      Stepped (Public state) (Public ({ state with memory := memory' }.goto thread pc')) state.memory
        memory' thread (state.threads thread) pc' := by
  have other : ∀ entry first next logRemove,
      state.threads thread = .deq (.storeHelp entry first next logRemove) → entry ≠ logRemove := by
    rintro entry first next logRemove place rfl
    have uses : (state.threads thread).entry = some entry := by rw [place]; rfl
    have claimed := inTime thread rfl entry first next entry place thread uses
    rw [place] at claimed
    cases claimed
  have stepped : Stepped (Public state) (Public ({ state with memory := memory' }.goto thread pc'))
      state.memory memory' thread (state.threads thread) pc' :=
    stepThread_stepped sound.reaches (sound.locals thread) (sound.holds thread) other step
  refine ⟨?_, stepped⟩
  have private_ : ∀ node, (state.threads thread).pending = some node → ¬ Public state node :=
    fun node mine reach => reach.2 thread mine
  have pendingBefore : ∀ {one node}, (Function.update state.threads thread pc' one).pending = some node →
      (state.threads one).pending = some node := by
    intro one node pending
    by_cases same : one = thread
    · subst same
      rw [Function.update_self] at pending
      rcases stepped.pending with ⟨_, -, -, none_⟩ | ⟨kept, -⟩
      · rw [none_] at pending
        cases pending
      · exact kept.symm.trans pending
    · rwa [Function.update_of_ne same] at pending
  have grows : ∀ node, Public state node →
      Public ({ state with memory := memory' }.goto thread pc') node :=
    fun node reach => ⟨reach.1, fun one pending => reach.2 one (pendingBefore pending)⟩
  have linked : ∀ node, eventOf state.memory (state.threads thread) = some (.link node) →
      Public ({ state with memory := memory' }.goto thread pc') node := by
    intro node event
    rcases stepped.pending with ⟨one, event', mine, none_⟩ | ⟨-, noLink⟩
    · rw [event] at event'
      cases event'
      refine ⟨sound.pending thread node mine, fun one pending => ?_⟩
      have same := sound.distinct one thread node (pendingBefore pending) mine
      subst same
      rw [State.goto_threads, Function.update_self, none_] at pending
      cases pending
    · exact absurd event (noLink node)
  have entryBefore : ∀ one entry, (Function.update state.threads thread pc' one).entry = some entry →
      entry ∈ pools.entries one ∧ entry ∉ memory'.free one := by
    intro one entry uses
    by_cases same : one = thread
    · subst same
      rw [Function.update_self] at uses
      rcases stepped.moves with ⟨kept, free⟩ | ⟨_, -, none_, -⟩ | ⟨taken, rest, first, -, mine, free⟩
      · rw [free]
        exact sound.entry one entry (kept.symm.trans uses)
      · rw [none_] at uses
        cases uses
      · rw [mine] at uses
        cases uses
        obtain ⟨nodup, inPool⟩ := sound.free one
        rw [first] at nodup inPool
        rw [free, Function.update_self]
        exact ⟨inPool entry List.mem_cons_self, (List.nodup_cons.1 nodup).1⟩
    · rw [Function.update_of_ne same] at uses
      have before := sound.entry one entry uses
      rcases stepped.moves with ⟨-, free⟩ | ⟨_, -, -, free⟩ | ⟨_, _, -, -, -, free⟩
      · rw [free]
        exact before
      · rw [free, Function.update_of_ne same]
        exact before
      · rw [free, Function.update_of_ne same]
        exact before
  refine ⟨stepped.effect.reaches sound.reaches private_ grows linked, fun one => ?_, fun one => ?_,
    entryBefore, fun one => ?_, fun one node pending => sound.pending one node (pendingBefore pending),
    fun one two node pending pending' =>
      sound.distinct one two node (pendingBefore pending) (pendingBefore pending')⟩
  · rw [State.goto_threads]
    by_cases same : one = thread
    · subst same
      rw [Function.update_self]
      exact stepped.locals grows linked
    · rw [Function.update_of_ne same]
      exact (sound.locals one).mono grows
  · rw [State.goto_threads]
    by_cases same : one = thread
    · subst same
      rw [Function.update_self]
      exact stepped.holds
    · rw [Function.update_of_ne same]
      refine (sound.holds one).congr (sound.locals one) (fun entry uses => ?_)
        fun node entry reach claimed => stepped.effect.logRemove private_ reach claimed
      refine (stepped.effect.entryNode entry).imp_right ?_
      rintro ⟨value, event, written⟩
      rcases sound.write_other inTime event uses with mine | ⟨node, claimed, rfl⟩
      · exact absurd mine same
      · exact ⟨node, claimed, written⟩
  · obtain ⟨nodup, inPool⟩ := sound.free one
    show (memory'.free one).Nodup ∧ ∀ entry ∈ memory'.free one, entry ∈ pools.entries one
    by_cases same : one = thread
    · subst same
      rcases stepped.moves with ⟨-, free⟩ | ⟨entry, uses, -, free⟩ | ⟨entry, rest, first, -, -, free⟩
      · rw [free]
        exact ⟨nodup, inPool⟩
      · obtain ⟨member, notFree⟩ := sound.entry one entry uses
        rw [free, Function.update_self]
        refine ⟨?_, fun other inside => ?_⟩
        · rw [List.nodup_append]
          refine ⟨nodup, List.nodup_singleton entry, fun left inside right single same => ?_⟩
          rw [List.mem_singleton.1 single] at same
          exact notFree (same ▸ inside)
        · rcases List.mem_append.1 inside with earlier | single
          · exact inPool other earlier
          · rw [List.mem_singleton.1 single]
            exact member
      · rw [first] at nodup inPool
        rw [free, Function.update_self]
        exact ⟨(List.nodup_cons.1 nodup).2, fun other inside =>
          inPool other (List.mem_cons_of_mem _ inside)⟩
    · have unchanged : memory'.free one = state.memory.free one := by
        rcases stepped.moves with ⟨-, free⟩ | ⟨_, -, -, free⟩ | ⟨_, _, -, -, -, free⟩
        · rw [free]
        · rw [free, Function.update_of_ne same]
        · rw [free, Function.update_of_ne same]
      rw [unchanged]
      exact ⟨nodup, inPool⟩

/-- The nodes that are reachable for all before a thread begins a call are so afterwards. -/
theorem Public.begin {thread : Nat} {pc : Pc} {used : List Nat}
    (more : ∀ node ∈ state.used, node ∈ used)
    (pending : ∀ node, pc.pending = some node → node ∉ state.used) {node : Nat}
    (reach : Public state node) : Public ({ state with used := used }.goto thread pc) node := by
  refine ⟨more node reach.1, fun one mine => ?_⟩
  rw [State.goto_threads] at mine
  by_cases same : one = thread
  · subst same
    rw [Function.update_self] at mine
    exact pending node mine reach.1
  · rw [Function.update_of_ne same] at mine
    exact reach.2 one mine

/-- A thread begins a call. -/
theorem Sound.begin (sound : Sound pools state) {thread : Nat} {pc : Pc} {used : List Nat}
    (idle : state.threads thread = .idle) (more : ∀ node ∈ state.used, node ∈ used)
    (less : ∀ node ∈ used, node ∉ state.used → pc.pending = some node)
    (pending : ∀ node, pc.pending = some node → node ∈ used ∧ node ∉ state.used)
    (locals : ∀ Reach, Locals Reach pc) (holds : Holds state.memory pc) (entry : pc.entry = none) :
    Sound pools ({ state with used := used }.goto thread pc) := by
  have grows : ∀ node, Public state node → Public ({ state with used := used }.goto thread pc) node :=
    fun node => Public.begin more fun node mine => (pending node mine).2
  have shrinks : ∀ node, Public ({ state with used := used }.goto thread pc) node →
      Public state node := by
    rintro node ⟨member, unowned⟩
    have old : node ∈ state.used := by
      by_contra new
      refine unowned thread ?_
      rw [State.goto_threads, Function.update_self]
      exact less node member new
    refine ⟨old, fun one mine => unowned one ?_⟩
    have different : one ≠ thread := by
      rintro rfl
      rw [idle] at mine
      cases mine
    rw [State.goto_threads, Function.update_of_ne different]
    exact mine
  refine ⟨⟨fun node found => grows node (sound.reaches.head node found),
    fun node found => grows node (sound.reaches.tail node found),
    fun node reach other found => grows other (sound.reaches.next node (shrinks node reach) other found),
    fun node absent => sound.reaches.alone node fun reach => absent (grows node reach)⟩,
    fun one => ?_, fun one => ?_, fun one held uses => ?_, sound.free, fun one node mine => ?_,
    fun one two node mine mine' => ?_⟩
  · rw [State.goto_threads]
    by_cases same : one = thread
    · subst same
      rw [Function.update_self]
      exact locals _
    · rw [Function.update_of_ne same]
      exact (sound.locals one).mono grows
  · rw [State.goto_threads]
    by_cases same : one = thread
    · subst same
      rw [Function.update_self]
      exact holds
    · rw [Function.update_of_ne same]
      exact sound.holds one
  · rw [State.goto_threads] at uses
    by_cases same : one = thread
    · subst same
      rw [Function.update_self, entry] at uses
      cases uses
    · rw [Function.update_of_ne same] at uses
      exact sound.entry one held uses
  · rw [State.goto_threads] at mine
    by_cases same : one = thread
    · subst same
      rw [Function.update_self] at mine
      exact (pending node mine).1
    · rw [Function.update_of_ne same] at mine
      exact more node (sound.pending one node mine)
  · rw [State.goto_threads] at mine mine'
    by_cases same : one = thread
    · by_cases same' : two = thread
      · rw [same, same']
      · subst same
        rw [Function.update_self] at mine
        rw [Function.update_of_ne same'] at mine'
        exact absurd (sound.pending two node mine') (pending node mine).2
    · by_cases same' : two = thread
      · subst same'
        rw [Function.update_self] at mine'
        rw [Function.update_of_ne same] at mine
        exact absurd (sound.pending one node mine) (pending node mine').2
      · rw [Function.update_of_ne same] at mine
        rw [Function.update_of_ne same'] at mine'
        exact sound.distinct one two node mine mine'

/-- Every step of the system in time keeps the invariant and the claims, and a thread has claimed a node
only in a step that claims it. -/
theorem Sound.next (sound : Sound pools state) {action : Action} {after : State}
    (inTime : InTime state action) (step : state.next action = some after) :
    Sound pools after ∧
      (∀ node entry, Public state node → state.memory.logRemove node = some entry →
        Public after node ∧ after.memory.logRemove node = some entry) ∧
      (∀ thread node, (after.threads thread).claimed = some node →
        (state.threads thread).claimed = some node ∨ action = .step thread ∧
          eventOf state.memory (state.threads thread) = some (.claim node)) ∧
      ∀ thread node, action = .step thread →
        eventOf state.memory (state.threads thread) = some (.claim node) →
        Public after node ∧ ∃ entry, after.memory.logRemove node = some entry := by
  cases action with
  | enqueue thread node =>
    obtain ⟨⟨idle, new⟩, ⟨⟩⟩ := Option.ite_none_right_eq_some.1 step
    refine ⟨sound.begin idle (fun _ => List.mem_cons_of_mem _) (fun other member old => ?_)
      (fun other mine => ?_) (fun _ => trivial) trivial rfl,
      fun other entry reach claimed => ⟨reach.begin (fun _ => List.mem_cons_of_mem _) ?_, claimed⟩,
      fun one other claimed => ?_, nofun⟩
    · rcases List.mem_cons.1 member with rfl | earlier
      · rfl
      · exact absurd earlier old
    · cases mine
      exact ⟨List.mem_cons_self, new⟩
    · rintro other ⟨⟩
      exact new
    · rw [State.goto_threads] at claimed
      by_cases same : one = thread
      · subst same
        rw [Function.update_self] at claimed
        cases claimed
      · rw [Function.update_of_ne same] at claimed
        exact .inl claimed
  | dequeue thread =>
    obtain ⟨idle, ⟨⟩⟩ := Option.ite_none_right_eq_some.1 step
    refine ⟨sound.begin idle (fun _ member => member) (fun _ member old => absurd member old) nofun
      (fun _ => trivial) trivial rfl,
      fun other entry reach claimed => ⟨reach.begin (fun _ member => member) ?_, claimed⟩,
      fun one other claimed => ?_, nofun⟩
    · nofun
    rw [State.goto_threads] at claimed
    by_cases same : one = thread
    · subst same
      rw [Function.update_self] at claimed
      cases claimed
    · rw [Function.update_of_ne same] at claimed
      exact .inl claimed
  | step thread =>
    obtain ⟨⟨memory', pc'⟩, taken, rfl⟩ := Option.map_eq_some_iff.1 step
    obtain ⟨sound', stepped⟩ := sound.step inTime taken
    have private_ : ∀ node, (state.threads thread).pending = some node → ¬ Public state node :=
      fun node mine reach => reach.2 thread mine
    have grows : ∀ node, Public state node →
        Public ({ state with memory := memory' }.goto thread pc') node := by
      refine fun node reach => ⟨reach.1, fun one pending => ?_⟩
      rw [State.goto_threads] at pending
      by_cases same : one = thread
      · subst same
        rw [Function.update_self] at pending
        rcases stepped.pending with ⟨_, -, -, none_⟩ | ⟨kept, -⟩
        · rw [none_] at pending
          cases pending
        · exact reach.2 one (kept.symm.trans pending)
      · rw [Function.update_of_ne same] at pending
        exact reach.2 one pending
    refine ⟨sound', fun node entry reach claimed =>
      ⟨grows node reach, stepped.effect.logRemove private_ reach claimed⟩, fun one node claimed => ?_,
      fun one node same event => ?_⟩
    · rw [State.goto_threads] at claimed
      by_cases same : one = thread
      · subst same
        rw [Function.update_self] at claimed
        exact (stepped.claimed node claimed).imp_right fun event => ⟨rfl, event⟩
      · rw [Function.update_of_ne same] at claimed
        exact .inl claimed
    · cases same
      have effect := stepped.effect
      rw [event] at effect
      cases effect with
      | claim _ entry reach unclaimed =>
        exact ⟨grows node reach, entry, Function.update_self _ _ _⟩

end System

/-! ### Runs -/

section Runs

variable {pools : Pools} {sentinel : Nat} {run : Run (system pools sentinel)}

theorem sound_of_meets (meets : run.Meets InTime) (index : Nat) (inside : index ≤ run.length) :
    Sound pools (run.state index) := by
  have initially : ∀ state, (system pools sentinel).initial state → Sound pools state := by
    intro state starts
    have start : state = .start pools sentinel := starts
    rw [start]
    exact sound_start pools sentinel
  exact run.invariant meets initially
    (fun before action after sound inTime step => (sound.next inTime step).1) index inside

/-- A claim stays to the end of the run. -/
theorem claimed_after (meets : run.Meets InTime) {thread node index : Nat}
    (claims : Happens run thread (.claim node) index) {later : Nat} (after : index < later)
    (inside : later ≤ run.length) :
    Public (run.state later) node ∧ ∃ entry, (run.state later).memory.logRemove node = some entry := by
  obtain ⟨here, action, event⟩ := claims
  induction later, after using Nat.le_induction with
  | base =>
    have next := (sound_of_meets meets index (Nat.le_of_lt here)).next (meets index here)
      (run.steps index here)
    exact next.2.2.2 thread node action event
  | succ later after inductionHypothesis =>
    obtain ⟨reach, entry, claimed⟩ := inductionHypothesis (Nat.le_of_lt inside)
    have next := (sound_of_meets meets later (Nat.le_of_lt inside)).next (meets later inside)
      (run.steps later inside)
    obtain ⟨reach', claimed'⟩ := next.2.1 node entry reach claimed
    exact ⟨reach', entry, claimed'⟩

/-- A step that claims a node finds it unclaimed. -/
theorem unclaimed_of_claim {memory : Memory} {pc : Pc} {node : Nat}
    (event : eventOf memory pc = some (.claim node)) : memory.logRemove node = none := by
  match pc, event with
  | .deq (.exchangeRemove _ first _), event =>
    rw [eventOf] at event
    by_cases unclaimed : memory.logRemove first = none
    · rw [if_pos unclaimed] at event
      cases event
      exact unclaimed
    · rw [if_neg unclaimed] at event
      cases event
  | .enq _ (.exchangeNext _ _ last), event =>
    rw [eventOf] at event
    split at event <;> cases event

theorem not_claims_before (meets : run.Meets InTime) {thread other node index index' : Nat}
    (claims : Happens run thread (.claim node) index)
    (again : Happens run other (.claim node) index') : ¬ index < index' := by
  intro before
  obtain ⟨-, entry, claimed⟩ := claimed_after meets claims before (Nat.le_of_lt again.1)
  rw [unclaimed_of_claim again.2.2] at claimed
  cases claimed

/-- In every run in which no helper stores into an entry that another operation uses, the entries are
written only for their own operation. -/
theorem ownEntries_of_run (meets : run.Meets InTime) : OwnEntries run where
  writes thread entry value index happens user uses := by
    obtain ⟨inside, action, event⟩ := happens
    have inTime := meets index inside
    rw [action] at inTime
    exact (sound_of_meets meets index (Nat.le_of_lt inside)).write_own inTime event uses
  links thread node newNode pc index happens place := by
    obtain ⟨inside, -, event⟩ := happens
    have holds := (sound_of_meets meets index (Nat.le_of_lt inside)).holds thread
    rw [place] at event holds
    match pc, event, holds with
    | .exchangeNext _ one last, event, holds =>
      rw [eventOf] at event
      split at event
      · cases event
        exact holds
      · cases event
  claimsOnce thread other node index index' claims again :=
    Nat.le_antisymm (Nat.le_of_not_lt (not_claims_before meets again claims))
      (Nat.le_of_not_lt (not_claims_before meets claims again))
  claimed thread node index inside claimed := by
    induction index with
    | zero =>
      have start : run.state 0 = .start pools sentinel := run.starts
      rw [start] at claimed
      cases claimed
    | succ index inductionHypothesis =>
      have next := (sound_of_meets meets index (Nat.le_of_lt inside)).next (meets index inside)
        (run.steps index inside)
      rcases next.2.2.1 thread node claimed with earlier | ⟨action, event⟩
      · obtain ⟨first, before, happens, kept⟩ := inductionHypothesis (Nat.le_of_lt inside) earlier
        refine ⟨first, Nat.lt_succ_of_lt before, happens, fun between after below => ?_⟩
        rcases Nat.lt_or_eq_of_le below with smaller | rfl
        · exact kept between after (Nat.le_of_lt_succ smaller)
        · exact claimed
      · refine ⟨index, Nat.lt_succ_self index, ⟨inside, action, event⟩, fun between after below => ?_⟩
        rw [Nat.le_antisymm below after]
        exact claimed
  reads thread entry claimed deqNode index inside place := by
    have holds := (sound_of_meets meets index inside).holds thread
    rw [place] at holds
    exact holds
  hands thread claimed deqNode index inside place := by
    have holds := (sound_of_meets meets index inside).holds thread
    rw [place] at holds
    exact holds

end Runs

/-! ### A helper in time and a helper too late -/

/-- Every thread has one log entry, with its own number. -/
def singlePools : Pools where
  entries thread := [thread]
  nodup thread := List.nodup_singleton thread
  disjoint _ _ _ mine its :=
    (List.mem_singleton.1 mine).symm.trans (List.mem_singleton.1 its)

/-- The test of a helper's store in the runs below: the entry is the one of the thread with its
number. -/
def inTime (state : State) : Action → Bool
  | .step thread =>
    match state.threads thread with
    | .deq (.storeHelp _ first _ logRemove) => (state.threads logRemove).claimed = some first
    | _ => true
  | _ => true

theorem inTime_of_test {state : State} (sound : Sound singlePools state) {action : Action}
    (passes : inTime state action = true) : InTime state action := by
  rintro thread rfl entry first next logRemove place user uses
  have same : logRemove = user := List.mem_singleton.1 (sound.entry user logRemove uses).1
  subst same
  simp only [inTime, place] at passes
  exact of_decide_eq_true passes

/-- Thread 0 enqueues node 1 and claims the sentinel; thread 1 finds it claimed and is about to help. -/
def helperWaits : List Action :=
  Action.enqueue 0 1 :: (List.replicate 11 (Action.step 0) ++
    Action.dequeue 0 :: (List.replicate 7 (Action.step 0) ++
      Action.dequeue 1 :: List.replicate 9 (Action.step 1)))

/-- Thread 1 helps at once, and thread 0 finishes its `dequeue()`. -/
def helperInTime : List Action :=
  helperWaits ++ (Action.step 1 :: List.replicate 6 (Action.step 0))

/-- Thread 0 finishes its `dequeue()` and takes its entry again for an `enqueue()` of node 2; then
thread 1 stores. -/
def helperLate : List Action :=
  helperWaits ++ (List.replicate 6 (Action.step 0) ++
    [Action.enqueue 0 2, Action.step 0, Action.step 0, Action.step 1])

theorem ownEntries_of_run_helperInTime : ∃ run : Run (system singlePools 0),
    run.Meets InTime ∧ OwnEntries run ∧
      (run.state 36).threads 0 = .deq (.cleanDeqNode (some 0) 0) := by
  obtain ⟨run, length, states, actions⟩ := exists_run_of_next (fun state => state = .start singlePools 0)
    State.next rfl helperInTime (by decide +kernel)
  have tests : run.Meets fun state action => inTime state action = true := by
    intro index inside
    rw [actions]
    exact test_of_replayTests inTime (by decide +kernel) (length ▸ inside) (states index)
  have initially : ∀ state, (system singlePools 0).initial state → Sound singlePools state := by
    intro state starts
    have start : state = .start singlePools 0 := starts
    rw [start]
    exact sound_start singlePools 0
  have sound := run.invariant tests initially fun before action after sound passes step =>
    (sound.next (inTime_of_test sound passes) step).1
  have meets : run.Meets InTime := fun index inside =>
    inTime_of_test (sound index (Nat.le_of_lt inside)) (tests index inside)
  refine ⟨run, meets, ownEntries_of_run meets, ?_⟩
  exact satisfies_of_replay (fun state => state.threads 0 = .deq (.cleanDeqNode (some 0) 0)) (states 36)
    (by decide +kernel)

theorem exists_not_ownEntries : ∃ run : Run (system singlePools 0), ¬ OwnEntries run := by
  obtain ⟨run, length, states, actions⟩ := exists_run_of_next (fun state => state = .start singlePools 0)
    State.next rfl helperLate (by decide +kernel)
  refine ⟨run, fun own => ?_⟩
  have found := satisfies_of_replay (fun state =>
    state.threads 1 = .deq (.storeHelp 1 0 (some 1) 0) ∧ state.threads 0 = .enq 2 (.setNext 0))
    (states 39) (by decide +kernel)
  have happens : Happens run 1 (.write 0 (some 0)) 39 := by
    refine ⟨by rw [length]; decide, by rw [actions]; rfl, ?_⟩
    rw [found.1]
    rfl
  have written := own.writes 1 0 (some 0) 39 happens 0 (by rw [found.2]; rfl)
  rw [found.2] at written
  cases written

end Pmwcas.LogQueue
