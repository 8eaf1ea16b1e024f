/-
This file shows what the threads of the doubly linked list over multi-word CAS know at each place, and
that every step of a thread inside a call can be taken and has one of the effects on the chain.
-/

import Pmwcas.MwCASDListShape

namespace Pmwcas.MwCASDList

open Transition DList Adjacency

/-! ### What a thread knows -/

/-- A node that has a node before it. -/
def HasPrev (known : List DListNode) (node : DListNode) : Prop := node ∈ known ∧ node ≠ .head

/-- A node that has a node behind it. -/
def HasNext (known : List DListNode) (node : DListNode) : Prop := node ∈ known ∧ node ≠ .tail

/-- A node between the head and the tail. -/
def Inner (known : List DListNode) (node : DListNode) : Prop :=
  node ∈ known ∧ node ≠ .head ∧ node ≠ .tail

/-- What is known inside `InsertBefore`. -/
def BeforeKnows (memory : Memory) (order known : List DListNode) (node : DListNode) :
    BeforePc → Prop
  | .loadPrev next => ∃ anchor, HasPrev known anchor ∧ next = .pointer anchor
  | .getNext next => next ∈ known ∧ next ∉ order
  | .loadNext next prev | .loadPrevNext next prev | .storeNext next prev =>
    HasPrev known next ∧ ∃ before, HasNext known before ∧ prev = .pointer before
  | .storePrev next prev =>
    HasPrev known next ∧ (∃ before, HasNext known before ∧ prev = .pointer before) ∧
      memory node .next = .pointer next
  | .addEntries next prev =>
    HasPrev known next ∧ (∃ before, HasNext known before ∧ prev = .pointer before) ∧
      memory node .next = .pointer next ∧ memory node .prev = prev
  | .mwcas next entries =>
    HasPrev known next ∧ ∃ before, HasNext known before ∧ entries = linkEntries before node next ∧
      memory node .next = .pointer next ∧ memory node .prev = .pointer before

/-- What is known inside `InsertAfter`. -/
def AfterKnows (memory : Memory) (order known : List DListNode) (node : DListNode) :
    AfterPc → Prop
  | .loadNext prev => ∃ anchor, HasNext known anchor ∧ prev = .pointer anchor
  | .getPrev prev => prev ∈ known ∧ prev ∉ order
  | .loadNextNext prev next | .storePrev prev next =>
    HasNext known prev ∧ ∃ after, HasPrev known after ∧ next = .pointer after
  | .storeNext prev next =>
    HasNext known prev ∧ (∃ after, HasPrev known after ∧ next = .pointer after) ∧
      memory node .prev = .pointer prev
  | .addEntries prev next =>
    HasNext known prev ∧ (∃ after, HasPrev known after ∧ next = .pointer after) ∧
      memory node .prev = .pointer prev ∧ memory node .next = next
  | .mwcas prev entries =>
    HasNext known prev ∧ ∃ after, HasPrev known after ∧ entries = linkEntries prev node after ∧
      memory node .next = .pointer after ∧ memory node .prev = .pointer prev

/-- What is known inside `Delete`. A marked `next` was found only after the node was taken out. -/
def DeleteKnows (order known : List DListNode) (node : DListNode) : DeletePc → Prop
  | .check => node ∈ known
  | .checkNext | .checkPrev => node = .head ∨ node = .tail
  | .loadPrev => Inner known node
  | .loadNext prev => Inner known node ∧ ∃ before ∈ known, prev = .pointer before
  | .comparePrev prev next =>
    Inner known node ∧ (∃ before ∈ known, prev = .pointer before) ∧
      ((∃ after ∈ known, next = .pointer after) ∨ node ∉ order)
  | .compareNext prev next =>
    Inner known node ∧ (∃ before ∈ known, prev = .pointer before) ∧ ∃ after ∈ known, next = .pointer after
  | .mwcas entries =>
    Inner known node ∧ ∃ before ∈ known, ∃ after ∈ known, entries = unlinkEntries before node after

/-- What a thread knows. -/
def Knows (memory : Memory) (order known : List DListNode) : Pc → Prop
  | .idle _ => True
  | .insertBefore node pc => BeforeKnows memory order known node pc
  | .insertAfter node pc => AfterKnows memory order known node pc
  | .delete node pc => DeleteKnows order known node pc
  | .getNext node | .getPrev node => node ∈ known

/-- The node that the thread inserts. -/
def Pc.own : Pc → Option DListNode
  | .insertBefore node _ | .insertAfter node _ => some node
  | _ => none

/-! ### Steps -/

section Steps

variable {memory : Memory} {order known : List DListNode} {node : DListNode}

theorem eventOf_insertBefore (memory : Memory) (anchor before node next : DListNode) :
    eventOf memory (.insertBefore node (.mwcas anchor (linkEntries before node next))) =
      if Matches memory (linkEntries before node next) then some (.link before node next)
      else none := rfl

theorem eventOf_insertAfter (memory : Memory) (anchor before node next : DListNode) :
    eventOf memory (.insertAfter node (.mwcas anchor (linkEntries before node next))) =
      if Matches memory (linkEntries before node next) then some (.link before node next)
      else none := rfl

/-- An insertion whose `MwCAS()` succeeds puts the node between two neighbours. -/
theorem effect_link (shape : Shape memory order known) {before next : DListNode}
    (member : before ∈ known) (nextWord : memory node .next = .pointer next)
    (prevWord : memory node .prev = .pointer before)
    (succeeds : Matches memory (linkEntries before node next)) :
    ∃ order', Effect memory order known (some node) (some (.link before node next))
      (install memory (linkEntries before node next)) order' := by
  have adjacent := shape.adjacent_of_next member (matches_linkEntries.1 succeeds).1
  obtain ⟨order', between⟩ := exists_between adjacent node
  exact ⟨order', .link before node next order' rfl between nextWord prevWord⟩

/-- A deletion whose `MwCAS()` succeeds takes the node out between its neighbours. -/
theorem effect_unlink (shape : Shape memory order known) {before next : DListNode}
    {own : Option DListNode} (beforeMember : before ∈ known) (member : node ∈ known)
    (succeeds : Matches memory (unlinkEntries before node next)) :
    ∃ order', Effect memory order known own (some (.unlink node))
      (install memory (unlinkEntries before node next)) order' := by
  obtain ⟨toNode, -, toNext⟩ := matches_unlinkEntries.1 succeeds
  have left := shape.adjacent_of_next beforeMember toNode
  have right := shape.adjacent_of_next member toNext
  obtain ⟨order', between⟩ := exists_between_of_adjacent shape.nodup left right
  exact ⟨order', .unlink before node next order' between⟩

/-- The effect of a step of `InsertBefore`, and what is known after it. -/
theorem stepBefore_effect (shape : Shape memory order known) {pc : BeforePc}
    (knows : BeforeKnows memory order known node pc) :
    ∃ memory' pc' order', stepBefore memory node pc = some (memory', pc') ∧
      Effect memory order known (some node) (eventOf memory (.insertBefore node pc)) memory' order' ∧
      ∀ following, pc' = some following → BeforeKnows memory' order' known node following := by
  cases pc with
  | loadPrev next =>
    obtain ⟨anchor, ⟨member, notHead⟩, rfl⟩ := knows
    obtain ⟨before, beforeMember, notTail, points⟩ := shape.prev_of_known member notHead
    refine ⟨memory, _, order, rfl, .keep, ?_⟩
    rintro following ⟨⟩
    exact ⟨⟨member, notHead⟩, before, ⟨beforeMember, notTail⟩, points⟩
  | loadNext next prev =>
    obtain ⟨⟨member, notHead⟩, before, known', rfl⟩ := knows
    by_cases gone : (memory next .next).deleted
    · refine ⟨memory, _, order, by rw [stepBefore, if_pos (.inr gone)], .keep, ?_⟩
      rintro following ⟨⟩
      exact ⟨member, (shape.deleted_iff member).1 gone⟩
    · refine ⟨memory, _, order, by rw [stepBefore, if_neg (by simp [gone])], .keep, ?_⟩
      rintro following ⟨⟩
      exact ⟨⟨member, notHead⟩, before, known', rfl⟩
  | getNext next =>
    obtain ⟨member, absent⟩ := knows
    obtain ⟨⟨after, afterMember, notHead, points⟩, -⟩ := shape.gone next member absent
    refine ⟨memory, _, order, rfl, .keep, ?_⟩
    rintro following ⟨⟩
    refine ⟨after, ⟨afterMember, notHead⟩, ?_⟩
    rw [points]
    rfl
  | loadPrevNext next prev =>
    obtain ⟨known', before, beforeKnown, rfl⟩ := knows
    by_cases gone : (memory before .next).deleted
    · refine ⟨memory, some (.loadPrev (.pointer next)), order, by simp [stepBefore, gone], .keep, ?_⟩
      rintro following ⟨⟩
      exact ⟨next, known', rfl⟩
    · refine ⟨memory, some (.storeNext next (.pointer before)), order, by simp [stepBefore, gone], .keep, ?_⟩
      rintro following ⟨⟩
      exact ⟨known', before, beforeKnown, rfl⟩
  | storeNext next prev =>
    obtain ⟨known', before, beforeKnown, rfl⟩ := knows
    refine ⟨_, _, order, rfl, .own node _ _ rfl, ?_⟩
    rintro following ⟨⟩
    exact ⟨known', ⟨before, beforeKnown, rfl⟩, Memory.write_self _ _ _ _⟩
  | storePrev next prev =>
    obtain ⟨known', ⟨before, beforeKnown, rfl⟩, nextWord⟩ := knows
    refine ⟨_, _, order, rfl, .own node _ _ rfl, ?_⟩
    rintro following ⟨⟩
    refine ⟨known', ⟨before, beforeKnown, rfl⟩, ?_, Memory.write_self _ _ _ _⟩
    rw [Memory.write_of_ne _ (by simp)]
    exact nextWord
  | addEntries next prev =>
    obtain ⟨known', ⟨before, beforeKnown, rfl⟩, nextWord, prevWord⟩ := knows
    refine ⟨memory, some (.mwcas next (linkEntries before node next)), order, ?_, .keep, ?_⟩
    · rw [stepBefore, if_neg nofun, prevWord, nextWord]
      rfl
    · rintro following ⟨⟩
      exact ⟨known', before, beforeKnown, rfl, nextWord, prevWord⟩
  | mwcas next entries =>
    obtain ⟨known', before, beforeKnown, rfl, nextWord, prevWord⟩ := knows
    by_cases succeeds : Matches memory (linkEntries before node next)
    · obtain ⟨order', effect⟩ := effect_link shape beforeKnown.1 nextWord prevWord succeeds
      refine ⟨_, none, order', if_pos succeeds, ?_, nofun⟩
      rw [eventOf_insertBefore, if_pos succeeds]
      exact effect
    · refine ⟨memory, _, order, if_neg succeeds, ?_, ?_⟩
      · rw [eventOf_insertBefore, if_neg succeeds]
        exact .keep
      · rintro following ⟨⟩
        exact ⟨next, known', rfl⟩

/-- The effect of a step of `InsertAfter`, and what is known after it. -/
theorem stepAfter_effect (shape : Shape memory order known) {pc : AfterPc}
    (knows : AfterKnows memory order known node pc) :
    ∃ memory' pc' order', stepAfter memory node pc = some (memory', pc') ∧
      Effect memory order known (some node) (eventOf memory (.insertAfter node pc)) memory' order' ∧
      ∀ following, pc' = some following → AfterKnows memory' order' known node following := by
  cases pc with
  | loadNext prev =>
    obtain ⟨anchor, ⟨member, notTail⟩, rfl⟩ := knows
    obtain ⟨after, afterMember, notHead, ⟨adjacent, points⟩ | ⟨absent, points⟩⟩ :=
      shape.next_of_known member notTail
    · refine ⟨memory, some (.loadNextNext anchor (.pointer after)), order, by simp [stepAfter, points],
        .keep, ?_⟩
      rintro following ⟨⟩
      exact ⟨⟨member, notTail⟩, after, ⟨afterMember, notHead⟩, rfl⟩
    · refine ⟨memory, some (.getPrev anchor), order, by simp [stepAfter, points], .keep, ?_⟩
      rintro following ⟨⟩
      exact ⟨member, absent⟩
  | getPrev prev =>
    obtain ⟨member, absent⟩ := knows
    obtain ⟨-, before, beforeMember, notTail, points⟩ := shape.gone prev member absent
    refine ⟨memory, _, order, rfl, .keep, ?_⟩
    rintro following ⟨⟩
    refine ⟨before, ⟨beforeMember, notTail⟩, ?_⟩
    rw [points]
    rfl
  | loadNextNext prev next =>
    obtain ⟨known', after, afterKnown, rfl⟩ := knows
    by_cases gone : (memory after .next).deleted
    · refine ⟨memory, some (.loadNext (.pointer prev)), order, by simp [stepAfter, gone], .keep, ?_⟩
      rintro following ⟨⟩
      exact ⟨prev, known', rfl⟩
    · refine ⟨memory, some (.storePrev prev (.pointer after)), order, by simp [stepAfter, gone], .keep, ?_⟩
      rintro following ⟨⟩
      exact ⟨known', after, afterKnown, rfl⟩
  | storePrev prev next =>
    obtain ⟨known', after, afterKnown, rfl⟩ := knows
    refine ⟨_, _, order, rfl, .own node _ _ rfl, ?_⟩
    rintro following ⟨⟩
    exact ⟨known', ⟨after, afterKnown, rfl⟩, Memory.write_self _ _ _ _⟩
  | storeNext prev next =>
    obtain ⟨known', ⟨after, afterKnown, rfl⟩, prevWord⟩ := knows
    refine ⟨_, _, order, rfl, .own node _ _ rfl, ?_⟩
    rintro following ⟨⟩
    refine ⟨known', ⟨after, afterKnown, rfl⟩, ?_, Memory.write_self _ _ _ _⟩
    rw [Memory.write_of_ne _ (by simp)]
    exact prevWord
  | addEntries prev next =>
    obtain ⟨known', ⟨after, afterKnown, rfl⟩, prevWord, nextWord⟩ := knows
    refine ⟨memory, some (.mwcas prev (linkEntries prev node after)), order, ?_, .keep, ?_⟩
    · rw [stepAfter, prevWord, nextWord]
      rfl
    · rintro following ⟨⟩
      exact ⟨known', after, afterKnown, rfl, nextWord, prevWord⟩
  | mwcas prev entries =>
    obtain ⟨known', after, afterKnown, rfl, nextWord, prevWord⟩ := knows
    by_cases succeeds : Matches memory (linkEntries prev node after)
    · obtain ⟨order', effect⟩ := effect_link shape known'.1 nextWord prevWord succeeds
      refine ⟨_, none, order', if_pos succeeds, ?_, nofun⟩
      rw [eventOf_insertAfter, if_pos succeeds]
      exact effect
    · refine ⟨memory, _, order, if_neg succeeds, ?_, ?_⟩
      · rw [eventOf_insertAfter, if_neg succeeds]
        exact .keep
      · rintro following ⟨⟩
        exact ⟨prev, known', rfl⟩

/-- The effect of a step of `Delete`, and what is known after it. -/
theorem stepDelete_effect (shape : Shape memory order known) {pc : DeletePc}
    (knows : DeleteKnows order known node pc) :
    ∃ memory' pc' order', stepDelete memory node pc = some (memory', pc') ∧
      Effect memory order known none (eventOf memory (.delete node pc)) memory' order' ∧
      ∀ following, pc' = some following → DeleteKnows order' known node following := by
  cases pc with
  | check =>
    by_cases gone : (memory node .next).deleted
    · exact ⟨memory, none, order, if_pos gone, .keep, nofun⟩
    · by_cases bound : node = .head ∨ node = .tail
      · refine ⟨memory, some .checkNext, order, ?_, .keep, ?_⟩
        · rw [stepDelete, if_neg gone, if_pos bound]
        · rintro following ⟨⟩
          exact bound
      · refine ⟨memory, some .loadPrev, order, ?_, .keep, ?_⟩
        · rw [stepDelete, if_neg gone, if_neg bound]
        · rintro following ⟨⟩
          exact ⟨knows, not_or.1 bound⟩
  | checkNext =>
    have inside : node ∈ order := by
      rcases knows with rfl | rfl
      · exact shape.head_mem
      · exact shape.tail_mem
    have unmarked : ¬ (memory node .next).deleted := fun gone =>
      (shape.deleted_iff (shape.subset node inside)).1 gone inside
    refine ⟨memory, some .checkPrev, order, if_neg unmarked, .keep, ?_⟩
    rintro following ⟨⟩
    exact knows
  | checkPrev =>
    have unmarked : ¬ (memory node .prev).deleted := by
      rcases knows with rfl | rfl
      · rw [shape.headPrev]
        nofun
      · obtain ⟨before, -, -, points⟩ :=
          shape.prev_of_known (shape.subset _ shape.tail_mem) (by decide)
        rw [points]
        nofun
    exact ⟨memory, none, order, if_neg unmarked, .keep, nofun⟩
  | loadPrev =>
    obtain ⟨before, beforeMember, -, points⟩ := shape.prev_of_known knows.1 knows.2.1
    refine ⟨memory, _, order, rfl, .keep, ?_⟩
    rintro following ⟨⟩
    exact ⟨knows, before, beforeMember, points⟩
  | loadNext prev =>
    obtain ⟨inner, before⟩ := knows
    refine ⟨memory, _, order, rfl, .keep, ?_⟩
    rintro following ⟨⟩
    obtain ⟨after, afterMember, -, ⟨-, points⟩ | ⟨absent, -⟩⟩ :=
      shape.next_of_known inner.1 inner.2.2
    · exact ⟨inner, before, .inl ⟨after, afterMember, points⟩⟩
    · exact ⟨inner, before, .inr absent⟩
  | comparePrev prev next =>
    obtain ⟨inner, ⟨before, beforeMember, rfl⟩, found⟩ := knows
    by_cases points : memory before .next = .pointer node
    · refine ⟨memory, some (.compareNext (.pointer before) next), order, ?_, .keep, ?_⟩
      · simp only [stepDelete, Link.pointer_target, Option.map_some, if_pos points]
      · -- the node still has a neighbour that points to it, so its own `next` was not marked
        have inside := (shape.adjacent_of_next beforeMember points).right_mem
        rintro following ⟨⟩
        exact ⟨inner, ⟨before, beforeMember, rfl⟩, found.resolve_right fun absent => absent inside⟩
    · refine ⟨memory, some .check, order, ?_, .keep, ?_⟩
      · simp only [stepDelete, Link.pointer_target, Option.map_some, if_neg points]
      · rintro following ⟨⟩
        exact inner.1
  | compareNext prev next =>
    obtain ⟨inner, ⟨before, beforeMember, rfl⟩, after, afterMember, rfl⟩ := knows
    by_cases points : memory after .prev = .pointer node
    · refine ⟨memory, some (.mwcas (unlinkEntries before node after)), order, ?_, .keep, ?_⟩
      · simp only [stepDelete, Link.pointer_target, if_pos points]
        rfl
      · rintro following ⟨⟩
        exact ⟨inner, before, beforeMember, after, afterMember, rfl⟩
    · refine ⟨memory, some .check, order, ?_, .keep, ?_⟩
      · simp only [stepDelete, Link.pointer_target, if_neg points]
      · rintro following ⟨⟩
        exact inner.1
  | mwcas entries =>
    obtain ⟨inner, before, beforeMember, after, afterMember, rfl⟩ := knows
    by_cases succeeds : Matches memory (unlinkEntries before node after)
    · obtain ⟨order', effect⟩ := effect_unlink shape beforeMember inner.1 succeeds
      refine ⟨_, none, order', if_pos succeeds, ?_, nofun⟩
      rw [eventOf, if_pos succeeds]
      exact effect
    · refine ⟨memory, some .check, order, if_neg succeeds, ?_, ?_⟩
      · rw [eventOf, if_neg succeeds]
        exact .keep
      · rintro following ⟨⟩
        exact inner.1

/-- The effect of a step of a thread inside a call, and what it knows after it. -/
theorem stepThread_effect (shape : Shape memory order known) {pc : Pc}
    (knows : Knows memory order known pc) (busy : ¬ pc.Idle) :
    ∃ memory' pc' order', stepThread memory pc = some (memory', pc') ∧
      Effect memory order known pc.own (eventOf memory pc) memory' order' ∧
      Knows memory' order' known pc' ∧ (pc'.own = pc.own ∨ pc'.Idle) := by
  cases pc with
  | idle result => exact absurd trivial busy
  | insertBefore node pc =>
    obtain ⟨memory', pc', order', step, effect, after⟩ := stepBefore_effect shape knows
    refine ⟨memory', _, order', by rw [stepThread, step]; rfl, effect, ?_⟩
    cases pc' with
    | none => exact ⟨trivial, .inr trivial⟩
    | some following => exact ⟨after following rfl, .inl rfl⟩
  | insertAfter node pc =>
    obtain ⟨memory', pc', order', step, effect, after⟩ := stepAfter_effect shape knows
    refine ⟨memory', _, order', by rw [stepThread, step]; rfl, effect, ?_⟩
    cases pc' with
    | none => exact ⟨trivial, .inr trivial⟩
    | some following => exact ⟨after following rfl, .inl rfl⟩
  | delete node pc =>
    obtain ⟨memory', pc', order', step, effect, after⟩ := stepDelete_effect shape knows
    refine ⟨memory', _, order', by rw [stepThread, step]; rfl, effect, ?_⟩
    cases pc' with
    | none => exact ⟨trivial, .inr trivial⟩
    | some following => exact ⟨after following rfl, .inl rfl⟩
  | getNext node => exact ⟨memory, _, order, rfl, .keep, trivial, .inr trivial⟩
  | getPrev node => exact ⟨memory, _, order, rfl, .keep, trivial, .inr trivial⟩

end Steps

/-! ### What a thread knows stays true -/

section Kept

variable {memory memory' : Memory} {order order' known known' : List DListNode}

/-- What a thread knows depends on the known nodes, on the nodes that were taken out, and on the words
of its own node. -/
theorem Knows.mono {pc : Pc} (knows : Knows memory order known pc)
    (more : ∀ node ∈ known, node ∈ known')
    (gone : ∀ node ∈ known, node ∉ order → node ∉ order')
    (own : ∀ node, pc.own = some node → ∀ field, memory' node field = memory node field) :
    Knows memory' order' known' pc := by
  have hasPrev : ∀ {node}, HasPrev known node → HasPrev known' node :=
    fun has => ⟨more _ has.1, has.2⟩
  have hasNext : ∀ {node}, HasNext known node → HasNext known' node :=
    fun has => ⟨more _ has.1, has.2⟩
  have inner : ∀ {node}, Inner known node → Inner known' node :=
    fun has => ⟨more _ has.1, has.2⟩
  have target : ∀ {link : Link}, (∃ node ∈ known, link = .pointer node) →
      ∃ node ∈ known', link = .pointer node := by
    rintro link ⟨node, member, points⟩
    exact ⟨node, more node member, points⟩
  have before : ∀ {link : Link}, (∃ node, HasNext known node ∧ link = .pointer node) →
      ∃ node, HasNext known' node ∧ link = .pointer node := by
    rintro link ⟨node, has, points⟩
    exact ⟨node, hasNext has, points⟩
  have behind : ∀ {link : Link}, (∃ node, HasPrev known node ∧ link = .pointer node) →
      ∃ node, HasPrev known' node ∧ link = .pointer node := by
    rintro link ⟨node, has, points⟩
    exact ⟨node, hasPrev has, points⟩
  match pc, knows, own with
  | .idle _, _, _ => exact trivial
  | .getNext _, knows, _ | .getPrev _, knows, _ => exact more _ knows
  | .insertBefore node (.loadPrev _), knows, _ => exact behind knows
  | .insertBefore node (.getNext _), ⟨member, absent⟩, _ =>
    exact ⟨more _ member, gone _ member absent⟩
  | .insertBefore node (.loadNext ..), ⟨has, prev⟩, _
  | .insertBefore node (.loadPrevNext ..), ⟨has, prev⟩, _
  | .insertBefore node (.storeNext ..), ⟨has, prev⟩, _ => exact ⟨hasPrev has, before prev⟩
  | .insertBefore node (.storePrev ..), ⟨has, prev, nextWord⟩, own =>
    exact ⟨hasPrev has, before prev, (own node rfl _).trans nextWord⟩
  | .insertBefore node (.addEntries ..), ⟨has, prev, nextWord, prevWord⟩, own =>
    exact ⟨hasPrev has, before prev, (own node rfl _).trans nextWord,
      (own node rfl _).trans prevWord⟩
  | .insertBefore node (.mwcas ..), ⟨has, one, hasOne, entries, nextWord, prevWord⟩, own =>
    exact ⟨hasPrev has, one, hasNext hasOne, entries, (own node rfl _).trans nextWord,
      (own node rfl _).trans prevWord⟩
  | .insertAfter node (.loadNext _), knows, _ => exact before knows
  | .insertAfter node (.getPrev _), ⟨member, absent⟩, _ =>
    exact ⟨more _ member, gone _ member absent⟩
  | .insertAfter node (.loadNextNext ..), ⟨has, next⟩, _
  | .insertAfter node (.storePrev ..), ⟨has, next⟩, _ => exact ⟨hasNext has, behind next⟩
  | .insertAfter node (.storeNext ..), ⟨has, next, prevWord⟩, own =>
    exact ⟨hasNext has, behind next, (own node rfl _).trans prevWord⟩
  | .insertAfter node (.addEntries ..), ⟨has, next, prevWord, nextWord⟩, own =>
    exact ⟨hasNext has, behind next, (own node rfl _).trans prevWord,
      (own node rfl _).trans nextWord⟩
  | .insertAfter node (.mwcas ..), ⟨has, two, hasTwo, entries, nextWord, prevWord⟩, own =>
    exact ⟨hasNext has, two, hasPrev hasTwo, entries, (own node rfl _).trans nextWord,
      (own node rfl _).trans prevWord⟩
  | .delete node .check, knows, _ => exact more _ knows
  | .delete node .checkNext, knows, _ | .delete node .checkPrev, knows, _ => exact knows
  | .delete node .loadPrev, knows, _ => exact inner knows
  | .delete node (.loadNext _), ⟨has, prev⟩, _ => exact ⟨inner has, target prev⟩
  | .delete node (.comparePrev ..), ⟨has, prev, found⟩, _ =>
    exact ⟨inner has, target prev, found.imp target fun absent => gone _ has.1 absent⟩
  | .delete node (.compareNext ..), ⟨has, prev, next⟩, _ =>
    exact ⟨inner has, target prev, target next⟩
  | .delete node (.mwcas _), ⟨has, one, oneMember, two, twoMember, entries⟩, _ =>
    exact ⟨inner has, one, more _ oneMember, two, more _ twoMember, entries⟩

end Kept

/-! ### The whole system -/

/-- The state of the system with the chain in its memory. -/
structure Sound (state : State) (order : List DListNode) : Prop where
  shape : Shape state.memory order state.known
  knows : ∀ thread, Knows state.memory order state.known (state.threads thread)
  used : ∀ node ∈ state.known, node ∈ state.used
  own : ∀ thread node, (state.threads thread).own = some node →
    node ∈ state.used ∧ node ∉ state.known
  distinct : ∀ thread other node, (state.threads thread).own = some node →
    (state.threads other).own = some node → thread = other

/-- What an event does to the chain. -/
def Applies (order order' : List DListNode) : Option Event → Prop
  | none => order' = order
  | some (.link prev node next) => Between order order' prev node next
  | some (.unlink node) => ∃ prev next, Between order' order prev node next

/-- The event of a step of the system. -/
def stepEvent (state : State) : Action → Option Event
  | .step thread => eventOf state.memory (state.threads thread)
  | _ => none

theorem sound_start : Sound .start [.head, .tail] where
  shape := {
    nodup := by decide
    first := rfl
    last := rfl
    subset := fun _ member => member
    links := by
      intro one two adjacent
      cases adjacent with
      | here => exact ⟨rfl, rfl⟩
      | there _ later =>
        cases later with
        | there _ later => cases later
    headPrev := rfl
    tailNext := rfl
    gone := fun _ member absent => absurd member absent }
  knows _ := trivial
  used _ member := member
  own _ _ own := nomatch own
  distinct _ _ _ own := nomatch own

section System

variable {state after : State} {order : List DListNode}

theorem Effect.applies {memory memory' : Memory} {order order' known : List DListNode}
    {own : Option DListNode} {event : Option Event}
    (effect : Effect memory order known own event memory' order') : Applies order order' event := by
  cases effect with
  | keep => rfl
  | own => rfl
  | link prev node next order' _ between => exact between
  | unlink prev node next order' between => exact ⟨prev, next, between⟩

theorem Pc.own_of_idle {pc : Pc} (idle : pc.Idle) : pc.own = none := by
  cases pc with
  | idle => rfl
  | insertBefore => cases idle
  | insertAfter => cases idle
  | delete => rfl
  | getNext => rfl
  | getPrev => rfl

/-- A thread begins a call that inserts no node. -/
theorem Sound.begin (sound : Sound state order) (thread : Nat) {pc : Pc}
    (knows : Knows state.memory order state.known pc) (none_ : pc.own = none) :
    Sound (state.goto thread pc) order := by
  have others : ∀ {other node}, ((state.goto thread pc).threads other).own = some node →
      (state.threads other).own = some node := by
    intro other node own
    rw [State.goto_threads] at own
    by_cases same : other = thread
    · subst same
      rw [Function.update_self, none_] at own
      cases own
    · rwa [Function.update_of_ne same] at own
  refine ⟨sound.shape, fun other => ?_, sound.used, fun other node own => sound.own other node (others own),
    fun one two node own own' => sound.distinct one two node (others own) (others own')⟩
  rw [State.goto_threads]
  by_cases same : other = thread
  · subst same
    rw [Function.update_self]
    exact knows
  · rw [Function.update_of_ne same]
    exact sound.knows other

/-- A thread begins to insert a new node. -/
theorem Sound.insert (sound : Sound state order) (thread : Nat) {node : DListNode} {pc : Pc}
    (new : node ∉ state.used) (knows : Knows state.memory order state.known pc)
    (own : pc.own = some node) :
    Sound ({ state with used := node :: state.used }.goto thread pc) order := by
  have unowned : ∀ other, (state.threads other).own ≠ some node :=
    fun other own => new (sound.own other node own).1
  refine ⟨sound.shape, fun other => ?_, fun other member => List.mem_cons_of_mem _ (sound.used other member),
    fun other one own' => ?_, fun other another one own' own'' => ?_⟩
  · rw [State.goto_threads]
    by_cases same : other = thread
    · subst same
      rw [Function.update_self]
      exact knows
    · rw [Function.update_of_ne same]
      exact sound.knows other
  · rw [State.goto_threads] at own'
    by_cases same : other = thread
    · subst same
      rw [Function.update_self, own] at own'
      cases own'
      exact ⟨List.mem_cons_self, fun member => new (sound.used node member)⟩
    · rw [Function.update_of_ne same] at own'
      exact ⟨List.mem_cons_of_mem _ (sound.own other one own').1, (sound.own other one own').2⟩
  · rw [State.goto_threads] at own' own''
    by_cases same : other = thread
    · subst same
      by_cases same' : another = other
      · exact same'.symm
      · rw [Function.update_self, own] at own'
        rw [Function.update_of_ne same'] at own''
        cases own'
        exact absurd own'' (unowned another)
    · rw [Function.update_of_ne same] at own'
      by_cases same' : another = thread
      · subst same'
        rw [Function.update_self, own] at own''
        cases own''
        exact absurd own' (unowned other)
      · rw [Function.update_of_ne same'] at own''
        exact sound.distinct other another one own' own''

theorem Event.know_of_link {event : Option Event} {known : List DListNode} {node : DListNode}
    (member : node ∈ Event.know event known) (old : node ∉ known) :
    ∃ prev next, event = some (.link prev node next) := by
  match event with
  | none => exact absurd member old
  | some (.unlink _) => exact absurd member old
  | some (.link prev one next) =>
    rcases List.mem_cons.1 member with rfl | earlier
    · exact ⟨prev, next, rfl⟩
    · exact absurd earlier old

theorem Effect.own_of_link {memory memory' : Memory} {order order' known : List DListNode}
    {own : Option DListNode} {prev node next : DListNode}
    (effect : Effect memory order known own (some (.link prev node next)) memory' order') :
    own = some node := by
  cases effect with
  | link _ _ _ _ mine => exact mine

/-- The step in which a node is linked is the last one of its insertion. -/
theorem idle_of_link {memory memory' : Memory} {pc pc' : Pc} {prev node next : DListNode}
    (step : stepThread memory pc = some (memory', pc'))
    (event : eventOf memory pc = some (.link prev node next)) : pc'.Idle := by
  match pc, event with
  | .insertBefore _ (.mwcas _ entries), event =>
    rw [eventOf] at event
    by_cases succeeds : Matches memory entries
    · rw [stepThread, stepBefore, if_pos succeeds] at step
      cases step
      exact trivial
    · rw [if_neg succeeds] at event
      cases event
  | .insertAfter _ (.mwcas _ entries), event =>
    rw [eventOf] at event
    by_cases succeeds : Matches memory entries
    · rw [stepThread, stepAfter, if_pos succeeds] at step
      cases step
      exact trivial
    · rw [if_neg succeeds] at event
      cases event
  | .delete _ (.mwcas entries), event =>
    rw [eventOf] at event
    split at event
    · cases event
    · cases event

/-- A step of a thread inside a call. -/
theorem Sound.step (sound : Sound state order) {thread : Nat} {memory' : Memory} {pc' : Pc}
    (step : stepThread state.memory (state.threads thread) = some (memory', pc')) :
    ∃ order', Sound ({ state with
        memory := memory'
        known := Event.know (eventOf state.memory (state.threads thread)) state.known }.goto thread pc')
        order' ∧ Applies order order' (eventOf state.memory (state.threads thread)) := by
  have busy : ¬ (state.threads thread).Idle := by
    intro idle
    cases place : state.threads thread with
    | idle => rw [place] at step; cases step
    | insertBefore => rw [place] at idle; cases idle
    | insertAfter => rw [place] at idle; cases idle
    | delete => rw [place] at idle; cases idle
    | getNext => rw [place] at idle; cases idle
    | getPrev => rw [place] at idle; cases idle
  obtain ⟨memory'', pc'', order', step', effect, knows, ownKept⟩ :=
    stepThread_effect sound.shape (sound.knows thread) busy
  rw [step] at step'
  cases step'
  have new : ∀ node, (state.threads thread).own = some node → node ∉ state.known :=
    fun node own => (sound.own thread node own).2
  have more : ∀ node ∈ state.known,
      node ∈ Event.know (eventOf state.memory (state.threads thread)) state.known :=
    fun node member => mem_know member _
  have others : ∀ {other node}, other ≠ thread → (state.threads other).own = some node →
      (state.threads thread).own ≠ some node :=
    fun different own own' => different (sound.distinct _ _ _ own own')
  have ownAfter : ∀ {other node}, (Function.update state.threads thread pc' other).own = some node →
      (state.threads other).own = some node := by
    intro other node own
    by_cases same : other = thread
    · subst same
      rw [Function.update_self] at own
      rcases ownKept with kept | idle
      · rwa [kept] at own
      · rw [Pc.own_of_idle idle] at own
        cases own
    · rwa [Function.update_of_ne same] at own
  refine ⟨order', ⟨effect.shape sound.shape new, fun other => ?_, fun node member => ?_,
    fun other node own => ?_, fun one two node own own' =>
      sound.distinct one two node (ownAfter own) (ownAfter own')⟩, effect.applies⟩
  · rw [State.goto_threads]
    by_cases same : other = thread
    · subst same
      rw [Function.update_self]
      exact knows.mono more (fun _ _ absent => absent) fun _ _ _ => rfl
    · rw [Function.update_of_ne same]
      refine (sound.knows other).mono more (fun node member => effect.gone_kept new member) ?_
      intro node own field
      exact effect.word_of_not_known sound.shape (sound.own other node own).2 (others same own) field
  · by_cases old : node ∈ state.known
    · exact sound.used node old
    · obtain ⟨prev, next, event⟩ := Event.know_of_link member old
      rw [event] at effect
      exact (sound.own thread node effect.own_of_link).1
  · refine ⟨(sound.own other node (ownAfter own)).1, fun member => ?_⟩
    have old := (sound.own other node (ownAfter own)).2
    obtain ⟨prev, next, event⟩ := Event.know_of_link member old
    have idle := idle_of_link step event
    rw [event] at effect
    have same := sound.distinct _ _ _ (ownAfter own) effect.own_of_link
    subst same
    rw [State.goto_threads, Function.update_self, Pc.own_of_idle idle] at own
    cases own

theorem knows_insertBeforeOf (order : List DListNode) {next : DListNode}
    (member : next ∈ state.known) (node : DListNode) :
    Knows state.memory order state.known (.insertBeforeOf next node) ∧
      (Pc.insertBeforeOf next node).own = some node := by
  unfold Pc.insertBeforeOf
  by_cases isHead : next = .head
  · rw [if_pos isHead]
    exact ⟨⟨next, ⟨member, by rw [isHead]; decide⟩, rfl⟩, rfl⟩
  · rw [if_neg isHead]
    exact ⟨⟨next, ⟨member, isHead⟩, rfl⟩, rfl⟩

theorem knows_insertAfterOf (order : List DListNode) {prev : DListNode}
    (member : prev ∈ state.known) (node : DListNode) :
    Knows state.memory order state.known (.insertAfterOf prev node) ∧
      (Pc.insertAfterOf prev node).own = some node := by
  unfold Pc.insertAfterOf
  by_cases isTail : prev = .tail
  · rw [if_pos isTail]
    exact ⟨⟨prev, ⟨member, by rw [isTail]; decide⟩, rfl⟩, rfl⟩
  · rw [if_neg isTail]
    exact ⟨⟨prev, ⟨member, isTail⟩, rfl⟩, rfl⟩

/-- Every step of the system keeps the chain, up to what its event does. -/
theorem Sound.next (sound : Sound state order) {action : Action}
    (step : state.next action = some after) :
    ∃ order', Sound after order' ∧ Applies order order' (stepEvent state action) := by
  cases action with
  | insertBefore thread next node =>
    obtain ⟨⟨-, member, new⟩, ⟨⟩⟩ := Option.ite_none_right_eq_some.1 step
    obtain ⟨knows, own⟩ := knows_insertBeforeOf order member node
    exact ⟨order, sound.insert thread new knows own, rfl⟩
  | insertAfter thread prev node =>
    obtain ⟨⟨-, member, new⟩, ⟨⟩⟩ := Option.ite_none_right_eq_some.1 step
    obtain ⟨knows, own⟩ := knows_insertAfterOf order member node
    exact ⟨order, sound.insert thread new knows own, rfl⟩
  | delete thread node =>
    obtain ⟨⟨-, member⟩, ⟨⟩⟩ := Option.ite_none_right_eq_some.1 step
    exact ⟨order, sound.begin thread member rfl, rfl⟩
  | getNext thread node =>
    obtain ⟨⟨-, member⟩, ⟨⟩⟩ := Option.ite_none_right_eq_some.1 step
    exact ⟨order, sound.begin thread member rfl, rfl⟩
  | getPrev thread node =>
    obtain ⟨⟨-, member⟩, ⟨⟩⟩ := Option.ite_none_right_eq_some.1 step
    exact ⟨order, sound.begin thread member rfl, rfl⟩
  | step thread =>
    obtain ⟨⟨memory', pc'⟩, stepped, rfl⟩ := Option.map_eq_some_iff.1 step
    exact sound.step stepped

end System

end Pmwcas.MwCASDList
