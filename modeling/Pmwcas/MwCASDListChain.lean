/-
This file is the law of the doubly linked list over multi-word CAS over whole runs. At every point the
nodes that were linked and not unlinked form one chain from the head to the tail, linked in both
directions; each node is linked once, between two neighbours, and unlinked at most once; and no step of
a thread is missing, so that no check fails.
-/

import Pmwcas.MwCASDListSound

namespace Pmwcas.MwCASDList

open Transition DList Adjacency

/-! ### The law -/

/-- The nodes of `order` form a chain in memory. -/
structure Chain (memory : Memory) (order : List DListNode) : Prop where
  nodup : order.Nodup
  first : order.head? = some .head
  last : order.getLast? = some .tail
  unmarked : ∀ node ∈ order, (memory node .next).deleted = false
  adjacent : ∀ one two, Adjacent order one two →
    memory one .next = .pointer two ∧ memory two .prev = .pointer one
  nextPrev : ∀ node ∈ order, node ≠ .tail →
    ∃ next ∈ order, memory node .next = .pointer next ∧ memory next .prev = .pointer node
  prevNext : ∀ node ∈ order, node ≠ .head →
    ∃ prev ∈ order, memory node .prev = .pointer prev ∧ memory prev .next = .pointer node

section Runs

variable (run : Run system)

/-- In this step the node is linked between the two others. -/
def LinksBetween (prev node next : DListNode) (index : Nat) : Prop :=
  index < run.length ∧
    stepEvent (run.state index) (run.action index) = some (.link prev node next)

/-- In this step the node is linked. -/
def Links (node : DListNode) (index : Nat) : Prop := ∃ prev next, LinksBetween run prev node next index

/-- In this step the node is unlinked. -/
def Unlinks (node : DListNode) (index : Nat) : Prop :=
  index < run.length ∧ stepEvent (run.state index) (run.action index) = some (.unlink node)

/-- In this step the call of a thread that is at this place returns. -/
def Returns (thread : Nat) (pc : Pc) (index : Nat) : Prop :=
  index < run.length ∧ run.action index = .step thread ∧ (run.state index).threads thread = pc ∧
    ((run.state (index + 1)).threads thread).Idle

/-- What `MwCASDList` promises over a run, with the chain at each point. -/
structure Lawful (order : Nat → List DListNode) : Prop where
  chain : ∀ index ≤ run.length, Chain (run.state index).memory (order index)
  members : ∀ index ≤ run.length, ∀ node, node ∈ order index ↔ node = .head ∨ node = .tail ∨
    (∃ earlier < index, Links run node earlier) ∧ ¬ ∃ earlier < index, Unlinks run node earlier
  linksBetween : ∀ prev node next index, LinksBetween run prev node next index →
    Adjacent (order index) prev next ∧ Between (order index) (order (index + 1)) prev node next
  linksOnce : ∀ node index other, Links run node index → Links run node other → index = other
  inserted : ∀ thread pc node index, pc.own = some node → Returns run thread pc index →
    Links run node index
  unlinks : ∀ node index, Unlinks run node index →
    ∃ prev next, Between (order (index + 1)) (order index) prev node next
  unlinksOnce : ∀ node index other, Unlinks run node index → Unlinks run node other → index = other
  deleted : ∀ thread pc node index, Returns run thread (.delete node pc) index →
    node = .head ∨ node = .tail ∨ ∃ earlier ≤ index, Unlinks run node earlier
  proceeds : ∀ index ≤ run.length, ∀ thread, ¬ ((run.state index).threads thread).Idle →
    (stepThread (run.state index).memory ((run.state index).threads thread)).isSome

end Runs

/-! ### Histories -/

theorem Shape.chain {memory : Memory} {order known : List DListNode}
    (shape : Shape memory order known) : Chain memory order where
  nodup := shape.nodup
  first := shape.first
  last := shape.last
  unmarked node member := by
    rw [← Bool.not_eq_true, shape.deleted_iff (shape.subset node member)]
    exact fun absent => absent member
  adjacent := shape.links
  nextPrev node member notTail := by
    obtain ⟨next, adjacent⟩ := shape.exists_right member notTail
    exact ⟨next, adjacent.right_mem, shape.links node next adjacent⟩
  prevNext node member notHead := by
    obtain ⟨prev, adjacent⟩ := shape.exists_left member notHead
    exact ⟨prev, adjacent.left_mem, (shape.links prev node adjacent).symm⟩

/-- What a step does to the known nodes. -/
theorem known_next {state after : State} {action : Action} (step : state.next action = some after) :
    after.known = Event.know (stepEvent state action) state.known := by
  cases action with
  | insertBefore thread next node =>
    obtain ⟨-, ⟨⟩⟩ := Option.ite_none_right_eq_some.1 step
    rfl
  | insertAfter thread prev node =>
    obtain ⟨-, ⟨⟩⟩ := Option.ite_none_right_eq_some.1 step
    rfl
  | delete thread node =>
    obtain ⟨-, ⟨⟩⟩ := Option.ite_none_right_eq_some.1 step
    rfl
  | getNext thread node =>
    obtain ⟨-, ⟨⟩⟩ := Option.ite_none_right_eq_some.1 step
    rfl
  | getPrev thread node =>
    obtain ⟨-, ⟨⟩⟩ := Option.ite_none_right_eq_some.1 step
    rfl
  | step thread =>
    obtain ⟨⟨memory', pc'⟩, stepped, rfl⟩ := Option.map_eq_some_iff.1 step
    rfl

/-- A node that is linked was not known before. -/
theorem Sound.new_of_link {state : State} {order : List DListNode} (sound : Sound state order)
    {action : Action} {prev node next : DListNode}
    (event : stepEvent state action = some (.link prev node next)) : node ∉ state.known := by
  cases action with
  | step thread =>
    have busy : ¬ (state.threads thread).Idle := by
      intro idle
      rw [stepEvent] at event
      cases place : state.threads thread with
      | idle => rw [place] at event; cases event
      | insertBefore => rw [place] at idle; cases idle
      | insertAfter => rw [place] at idle; cases idle
      | delete => rw [place] at idle; cases idle
      | getNext => rw [place] at idle; cases idle
      | getPrev => rw [place] at idle; cases idle
    obtain ⟨memory', pc', order', -, effect, -⟩ :=
      stepThread_effect sound.shape (sound.knows thread) busy
    rw [stepEvent] at event
    rw [event] at effect
    exact (sound.own thread node effect.own_of_link).2
  | insertBefore => cases event
  | insertAfter => cases event
  | delete => cases event
  | getNext => cases event
  | getPrev => cases event

section History

variable {run : Run system} {order : Nat → List DListNode}

/-- The known nodes are those that were linked, and the ones that are not in the chain any more are
those that were unlinked. -/
structure History (run : Run system) (order : Nat → List DListNode) (index : Nat) : Prop where
  links : ∀ node, node ∈ (run.state index).known ↔
    node = .head ∨ node = .tail ∨ ∃ earlier < index, Links run node earlier
  unlinks : ∀ node, (∃ earlier < index, Unlinks run node earlier) ↔
    node ∈ (run.state index).known ∧ node ∉ order index

theorem exists_lt_succ {Happens : Nat → Prop} {index : Nat} :
    (∃ earlier < index + 1, Happens earlier) ↔ (∃ earlier < index, Happens earlier) ∨ Happens index := by
  constructor
  · rintro ⟨earlier, below, happens⟩
    rcases Nat.lt_or_eq_of_le (Nat.le_of_lt_succ below) with before | rfl
    · exact .inl ⟨earlier, before, happens⟩
    · exact .inr happens
  · rintro (⟨earlier, below, happens⟩ | happens)
    · exact ⟨earlier, Nat.lt_succ_of_lt below, happens⟩
    · exact ⟨index, Nat.lt_succ_self index, happens⟩

theorem history_zero (start : order 0 = [.head, .tail]) : History run order 0 := by
  have starts : run.state 0 = .start := run.starts
  refine ⟨fun node => ?_, fun node => ?_⟩
  · rw [starts]
    simp [State.start]
  · rw [starts, start]
    constructor
    · rintro ⟨earlier, below, -⟩
      exact absurd below (Nat.not_lt_zero earlier)
    · rintro ⟨member, absent⟩
      exact absurd member absent

theorem History.succ {index : Nat} (history : History run order index)
    (sound : Sound (run.state index) (order index)) (inside : index < run.length)
    (applies : Applies (order index) (order (index + 1))
      (stepEvent (run.state index) (run.action index))) :
    History run order (index + 1) := by
  have knownAfter : (run.state (index + 1)).known = _ := known_next (run.steps index inside)
  match event : stepEvent (run.state index) (run.action index) with
  | none =>
    rw [event] at knownAfter applies
    have noLink : ∀ node, ¬ Links run node index := by
      rintro node ⟨prev, next, -, links⟩
      rw [event] at links
      cases links
    have noUnlink : ∀ node, ¬ Unlinks run node index := by
      rintro node ⟨-, unlinks⟩
      rw [event] at unlinks
      cases unlinks
    refine ⟨fun node => ?_, fun node => ?_⟩
    · rw [knownAfter, exists_lt_succ, or_iff_left (noLink node)]
      exact history.links node
    · rw [knownAfter, applies, exists_lt_succ, or_iff_left (noUnlink node)]
      exact history.unlinks node
  | some (.link prev one next) =>
    rw [event] at knownAfter applies
    have linksNow : ∀ node, Links run node index ↔ node = one := by
      intro node
      constructor
      · rintro ⟨prev, next, -, links⟩
        rw [event] at links
        cases links
        rfl
      · rintro rfl
        exact ⟨prev, next, inside, event⟩
    have noUnlink : ∀ node, ¬ Unlinks run node index := by
      rintro node ⟨-, unlinks⟩
      rw [event] at unlinks
      cases unlinks
    have new := sound.new_of_link event
    refine ⟨fun node => ?_, fun node => ?_⟩
    · rw [knownAfter, exists_lt_succ, linksNow]
      show node ∈ one :: (run.state index).known ↔ _
      rw [List.mem_cons, history.links node]
      constructor
      · rintro (isNode | isHead | isTail | linked)
        · exact .inr (.inr (.inr isNode))
        · exact .inl isHead
        · exact .inr (.inl isTail)
        · exact .inr (.inr (.inl linked))
      · rintro (isHead | isTail | linked | isNode)
        · exact .inr (.inl isHead)
        · exact .inr (.inr (.inl isTail))
        · exact .inr (.inr (.inr linked))
        · exact .inl isNode
    · rw [knownAfter, exists_lt_succ, or_iff_left (noUnlink node), history.unlinks node,
        applies.mem_iff node]
      show _ ↔ node ∈ one :: (run.state index).known ∧ _
      rw [List.mem_cons]
      constructor
      · rintro ⟨member, absent⟩
        refine ⟨.inr member, ?_⟩
        rintro (rfl | there)
        · exact new member
        · exact absent there
      · rintro ⟨isNode | member, absent⟩
        · exact absurd (.inl isNode) absent
        · exact ⟨member, fun there => absent (.inr there)⟩
  | some (.unlink one) =>
    rw [event] at knownAfter applies
    obtain ⟨prev, next, between⟩ := applies
    have noLink : ∀ node, ¬ Links run node index := by
      rintro node ⟨prev, next, -, links⟩
      rw [event] at links
      cases links
    have unlinksNow : ∀ node, Unlinks run node index ↔ node = one := by
      intro node
      constructor
      · rintro ⟨-, unlinks⟩
        rw [event] at unlinks
        cases unlinks
        rfl
      · rintro rfl
        exact ⟨inside, event⟩
    have absentAfter := (between.nodup_iff.1 sound.shape.nodup).1
    have member : one ∈ (run.state index).known :=
      sound.shape.subset one ((between.mem_iff one).2 (.inl rfl))
    refine ⟨fun node => ?_, fun node => ?_⟩
    · rw [knownAfter, exists_lt_succ, or_iff_left (noLink node)]
      exact history.links node
    · rw [knownAfter, exists_lt_succ, unlinksNow, history.unlinks node, between.mem_iff node]
      show _ ↔ node ∈ (run.state index).known ∧ _
      constructor
      · rintro (⟨there, absent⟩ | rfl)
        · exact ⟨there, fun inside' => absent (.inr inside')⟩
        · exact ⟨member, absentAfter⟩
      · rintro ⟨there, absent⟩
        by_cases same : node = one
        · exact .inr same
        · exact .inl ⟨there, fun inside' => inside'.elim same absent⟩

end History

/-! ### Calls -/

/-- The step in which an insertion returns links its node. -/
theorem link_of_return {memory memory' : Memory} {order known : List DListNode} {pc pc' : Pc}
    {node : DListNode} (knows : Knows memory order known pc) (own : pc.own = some node)
    (step : stepThread memory pc = some (memory', pc')) (idle : pc'.Idle) :
    ∃ prev next, eventOf memory pc = some (.link prev node next) := by
  cases pc with
  | idle => cases own
  | delete => cases own
  | getNext => cases own
  | getPrev => cases own
  | insertBefore one pc =>
    cases own
    rw [stepThread] at step
    obtain ⟨⟨memory'', pc''⟩, stepped, same⟩ := Option.map_eq_some_iff.1 step
    cases pc'' with
    | some following =>
      cases same
      cases idle
    | none =>
      cases pc with
      | mwcas anchor entries =>
        obtain ⟨-, before, -, rfl, -⟩ := knows
        by_cases succeeds : Matches memory (linkEntries before node anchor)
        · exact ⟨before, anchor, by rw [eventOf_insertBefore, if_pos succeeds]⟩
        · rw [stepBefore, if_neg succeeds] at stepped
          cases stepped
      | loadPrev next =>
        rw [stepBefore] at stepped
        split at stepped
        · cases stepped
        · obtain ⟨_, -, ⟨⟩⟩ := Option.map_eq_some_iff.1 stepped
      | loadNext next prev =>
        rw [stepBefore] at stepped
        split at stepped <;> cases stepped
      | getNext next => cases stepped
      | loadPrevNext next prev =>
        obtain ⟨before, -, stepped⟩ := Option.map_eq_some_iff.1 stepped
        split at stepped <;> cases stepped
      | storeNext next prev => cases stepped
      | storePrev next prev => cases stepped
      | addEntries next prev =>
        rw [stepBefore] at stepped
        split at stepped
        · cases stepped
        · obtain ⟨_, -, ⟨⟩⟩ := Option.map_eq_some_iff.1 stepped
  | insertAfter one pc =>
    cases own
    rw [stepThread] at step
    obtain ⟨⟨memory'', pc''⟩, stepped, same⟩ := Option.map_eq_some_iff.1 step
    cases pc'' with
    | some following =>
      cases same
      cases idle
    | none =>
      cases pc with
      | mwcas anchor entries =>
        obtain ⟨-, after, -, rfl, -⟩ := knows
        by_cases succeeds : Matches memory (linkEntries anchor node after)
        · exact ⟨anchor, after, by rw [eventOf_insertAfter, if_pos succeeds]⟩
        · rw [stepAfter, if_neg succeeds] at stepped
          cases stepped
      | loadNext prev =>
        rw [stepAfter] at stepped
        split at stepped
        · cases stepped
        · obtain ⟨_, -, stepped⟩ := Option.map_eq_some_iff.1 stepped
          split at stepped <;> cases stepped
      | getPrev prev => cases stepped
      | loadNextNext prev next =>
        obtain ⟨after, -, stepped⟩ := Option.map_eq_some_iff.1 stepped
        split at stepped <;> cases stepped
      | storePrev prev next =>
        rw [stepAfter] at stepped
        split at stepped <;> cases stepped
      | storeNext prev next => cases stepped
      | addEntries prev next => obtain ⟨_, -, ⟨⟩⟩ := Option.map_eq_some_iff.1 stepped

/-- When a deletion returns, its node is a bound of the list, was taken out before, or is taken out in
this step. -/
theorem gone_of_return {memory memory' : Memory} {order known : List DListNode} {pc' : Pc}
    {node : DListNode} {pc : DeletePc} (shape : Shape memory order known)
    (knows : DeleteKnows order known node pc)
    (step : stepThread memory (.delete node pc) = some (memory', pc')) (idle : pc'.Idle) :
    node = .head ∨ node = .tail ∨ node ∈ known ∧ node ∉ order ∨
      eventOf memory (.delete node pc) = some (.unlink node) := by
  rw [stepThread] at step
  obtain ⟨⟨memory'', pc''⟩, stepped, same⟩ := Option.map_eq_some_iff.1 step
  cases pc'' with
  | some following =>
    cases same
    cases idle
  | none =>
    cases pc with
    | check =>
      by_cases marked : (memory node .next).deleted
      · exact .inr (.inr (.inl ⟨knows, (shape.deleted_iff knows).1 marked⟩))
      · rw [stepDelete, if_neg marked] at stepped
        split at stepped <;> cases stepped
    | checkNext =>
      rw [stepDelete] at stepped
      split at stepped <;> cases stepped
    | checkPrev => exact knows.imp_right .inl
    | loadPrev => cases stepped
    | loadNext prev => cases stepped
    | comparePrev prev next =>
      obtain ⟨before, -, stepped⟩ := Option.map_eq_some_iff.1 stepped
      split at stepped <;> cases stepped
    | compareNext prev next =>
      rw [stepDelete] at stepped
      split at stepped
      · split at stepped <;> cases stepped
      · cases stepped
    | mwcas entries =>
      by_cases succeeds : Matches memory entries
      · exact .inr (.inr (.inr (if_pos succeeds)))
      · rw [stepDelete, if_neg succeeds] at stepped
        cases stepped

/-! ### Runs -/

/-- The doubly linked list over multi-word CAS keeps its law in every run. -/
theorem exists_lawful_of_run (run : Run system) : ∃ order, Lawful run order := by
  have starts : run.state 0 = .start := run.starts
  have soundStart : Sound (run.state 0) [.head, .tail] := by
    rw [starts]
    exact sound_start
  obtain ⟨order, start, sound, moves⟩ := run.exists_simulation run.meets_true Sound
    (fun before action _ order order' => Applies order order' (stepEvent before action))
    soundStart fun before action after order sound _ step => sound.next step
  have history : ∀ index ≤ run.length, History run order index := by
    intro index inside
    induction index with
    | zero => exact history_zero start
    | succ index inductionHypothesis =>
      exact (inductionHypothesis (Nat.le_of_lt inside)).succ (sound index (Nat.le_of_lt inside)) inside
        (moves index inside)
  have linksEarlier : ∀ {node index earlier}, Links run node index → Links run node earlier →
      ¬ earlier < index := by
    rintro node index earlier ⟨prev, next, inside, event⟩ links before
    exact (sound index (Nat.le_of_lt inside)).new_of_link event
      (((history index (Nat.le_of_lt inside)).links node).2 (.inr (.inr ⟨earlier, before, links⟩)))
  have unlinksFrom : ∀ {node index}, Unlinks run node index →
      ∃ prev next, Between (order (index + 1)) (order index) prev node next := by
    rintro node index ⟨inside, event⟩
    have applies := moves index inside
    rw [event] at applies
    exact applies
  have unlinksEarlier : ∀ {node index earlier}, Unlinks run node index → Unlinks run node earlier →
      ¬ earlier < index := by
    intro node index earlier unlinks unlinksBefore before
    obtain ⟨prev, next, between⟩ := unlinksFrom unlinks
    exact (((history index (Nat.le_of_lt unlinks.1)).unlinks node).1
      ⟨earlier, before, unlinksBefore⟩).2 ((between.mem_iff node).2 (.inl rfl))
  have stepped : ∀ {thread pc index}, Returns run thread pc index →
      ∃ memory' pc', stepThread (run.state index).memory pc = some (memory', pc') ∧ pc'.Idle ∧
        stepEvent (run.state index) (run.action index) = eventOf (run.state index).memory pc := by
    rintro thread pc index ⟨inside, action, place, idle⟩
    have step : (run.state index).next (run.action index) = some (run.state (index + 1)) :=
      run.steps index inside
    rw [action] at step
    obtain ⟨⟨memory', pc'⟩, taken, next⟩ := Option.map_eq_some_iff.1 step
    rw [← next, State.goto_threads, Function.update_self] at idle
    rw [place] at taken
    exact ⟨memory', pc', taken, idle, by rw [action, stepEvent, place]⟩
  refine ⟨order, ?_⟩
  constructor
  case chain => exact fun index inside => (sound index inside).shape.chain
  case members =>
    intro index inside node
    have members := (history index inside).links node
    have gone := (history index inside).unlinks node
    have shape := (sound index inside).shape
    constructor
    · intro member
      rcases members.1 (shape.subset node member) with isHead | isTail | linked
      · exact .inl isHead
      · exact .inr (.inl isTail)
      · exact .inr (.inr ⟨linked, fun unlinked => (gone.1 unlinked).2 member⟩)
    · rintro (rfl | rfl | ⟨linked, notUnlinked⟩)
      · exact shape.head_mem
      · exact shape.tail_mem
      · by_contra absent
        exact notUnlinked (gone.2 ⟨members.2 (.inr (.inr linked)), absent⟩)
  case linksBetween =>
    rintro prev node next index ⟨inside, event⟩
    have applies := moves index inside
    rw [event] at applies
    exact ⟨applies.adjacent, applies⟩
  case linksOnce =>
    intro node index other links links'
    exact Nat.le_antisymm (Nat.le_of_not_lt (linksEarlier links links'))
      (Nat.le_of_not_lt (linksEarlier links' links))
  case inserted =>
    intro thread pc node index own returns
    obtain ⟨memory', pc', step, idle, event⟩ := stepped returns
    obtain ⟨inside, -, place, -⟩ := returns
    have knows := (sound index (Nat.le_of_lt inside)).knows thread
    rw [place] at knows
    obtain ⟨prev, next, links⟩ := link_of_return knows own step idle
    exact ⟨prev, next, inside, event.trans links⟩
  case unlinks => exact fun node index unlinks => unlinksFrom unlinks
  case unlinksOnce =>
    intro node index other unlinks unlinks'
    exact Nat.le_antisymm (Nat.le_of_not_lt (unlinksEarlier unlinks unlinks'))
      (Nat.le_of_not_lt (unlinksEarlier unlinks' unlinks))
  case deleted =>
    intro thread pc node index returns
    obtain ⟨memory', pc', step, idle, event⟩ := stepped returns
    obtain ⟨inside, -, place, -⟩ := returns
    have sound' := sound index (Nat.le_of_lt inside)
    have knows := sound'.knows thread
    rw [place] at knows
    rcases gone_of_return sound'.shape knows step idle with isHead | isTail | gone | unlinks
    · exact .inl isHead
    · exact .inr (.inl isTail)
    · obtain ⟨earlier, before, unlinks⟩ := ((history index (Nat.le_of_lt inside)).unlinks node).2 gone
      exact .inr (.inr ⟨earlier, Nat.le_of_lt before, unlinks⟩)
    · exact .inr (.inr ⟨index, Nat.le_refl index, inside, event.trans unlinks⟩)
  case proceeds =>
    intro index inside thread busy
    obtain ⟨memory', pc', order', step, -⟩ :=
      stepThread_effect (sound index inside).shape ((sound index inside).knows thread) busy
    rw [step]
    rfl

/-- Thread 0 inserts a node after the head, and thread 1 deletes it. -/
def insertAndDelete : List Action :=
  [.insertAfter 0 .head (.new 1)] ++ List.replicate 6 (.step 0) ++ [.delete 1 (.new 1)] ++
    List.replicate 6 (.step 1)

theorem exists_lawful_of_run_insertAndDelete : ∃ run : Run system, ∃ order, Lawful run order ∧
    Adjacent (order 6) .head .tail ∧ Between (order 6) (order 7) .head (.new 1) .tail ∧
      Unlinks run (.new 1) 13 := by
  obtain ⟨run, length, states, actions⟩ := exists_run_of_next
    (fun state => state = .start) State.next rfl insertAndDelete (by decide +kernel)
  obtain ⟨order, lawful⟩ := exists_lawful_of_run run
  have inside : ∀ index < 14, index < run.length := fun index below => length ▸ below
  have links := satisfies_of_replay (fun state : State =>
    stepEvent state (.step 0) = some (.link .head (.new 1) .tail)) (states 6) (by decide +kernel)
  have unlinks := satisfies_of_replay (fun state : State =>
    stepEvent state (.step 1) = some (.unlink (.new 1))) (states 13) (by decide +kernel)
  have between := lawful.linksBetween .head (.new 1) .tail 6
    ⟨inside 6 (by decide), by rw [actions 6]; exact links⟩
  exact ⟨run, order, lawful, between.1, between.2,
    inside 13 (by decide), by rw [actions 13]; exact unlinks⟩

end Pmwcas.MwCASDList
