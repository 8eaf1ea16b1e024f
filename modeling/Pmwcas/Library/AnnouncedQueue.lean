/-
This file is what a queue whose operations can be continued after a crash is for. A thread announces
a node before it is linked, and a node that has left the queue stays in the hands of its thread until
the thread releases it. All of this is in the state that a crash leaves as it is, so that each
announced node gets into the queue once and each taken node is released once, however often the
threads are interrupted.
-/

import Mathlib.Data.List.Nodup
import Mathlib.Logic.Function.Basic

/-- The nodes in the queue, the first one first, and for each thread the node it has announced and the
node it has taken. -/
structure AnnouncedQueue (Node Thread : Type) where
  contents : List Node
  announced : Thread → Option Node
  taken : Thread → Option Node

namespace AnnouncedQueue

variable {Node Thread : Type}

/-- The node is in the queue or in the hands of a thread. -/
def Busy (queue : AnnouncedQueue Node Thread) (node : Node) : Prop :=
  node ∈ queue.contents ∨ ∃ thread, queue.announced thread = some node ∨
    queue.taken thread = some node

/-- What a thread may do. The queue keeps one node, behind which the next one is linked. -/
inductive Step [DecidableEq Thread] (queue : AnnouncedQueue Node Thread) (thread : Thread) :
    AnnouncedQueue Node Thread → Prop
  | announce (node : Node) (free : queue.announced thread = none) (new : ¬ queue.Busy node) :
    Step queue thread
      { queue with announced := Function.update queue.announced thread (some node) }
  | link (node : Node) (announced : queue.announced thread = some node) :
    Step queue thread
      { queue with
        contents := queue.contents ++ [node]
        announced := Function.update queue.announced thread none }
  | take (first next : Node) (rest : List Node) (contents : queue.contents = first :: next :: rest)
    (free : queue.taken thread = none) :
    Step queue thread
      { queue with
        contents := next :: rest
        taken := Function.update queue.taken thread (some first) }
  | release (node : Node) (taken : queue.taken thread = some node) :
    Step queue thread { queue with taken := Function.update queue.taken thread none }

/-- No node is in two places. -/
structure Apart (queue : AnnouncedQueue Node Thread) : Prop where
  nodup : queue.contents.Nodup
  announced : ∀ thread node, queue.announced thread = some node → node ∉ queue.contents
  taken : ∀ thread node, queue.taken thread = some node → node ∉ queue.contents
  announced_unique : ∀ one two node, queue.announced one = some node →
    queue.announced two = some node → one = two
  taken_unique : ∀ one two node, queue.taken one = some node → queue.taken two = some node → one = two
  disjoint : ∀ one two node, queue.announced one = some node → queue.taken two ≠ some node

/-- A queue of one node that no thread has anything to do with. -/
theorem Apart.start (first : Node) :
    Apart (⟨[first], fun _ => none, fun _ => none⟩ : AnnouncedQueue Node Thread) :=
  ⟨List.nodup_singleton first, nofun, nofun, nofun, nofun, nofun⟩

section Step

variable [DecidableEq Thread] {queue after : AnnouncedQueue Node Thread} {thread : Thread}

/-- The value of a thread after an update is the new one of this thread or the old one of another. -/
theorem update_eq_some {hand : Thread → Option Node} {value : Option Node} {other : Thread} {node : Node}
    (holds : Function.update hand thread value other = some node) :
    other = thread ∧ value = some node ∨ other ≠ thread ∧ hand other = some node := by
  by_cases same : other = thread
  · rw [same, Function.update_self] at holds
    exact .inl ⟨same, holds⟩
  · rw [Function.update_of_ne same] at holds
    exact .inr ⟨same, holds⟩

/-- What another thread or this one had in its hands is still there after an update to nothing. -/
theorem of_update_none {hand : Thread → Option Node} {other : Thread} {node : Node}
    (holds : Function.update hand thread none other = some node) :
    other ≠ thread ∧ hand other = some node := by
  rcases update_eq_some holds with ⟨-, nothing⟩ | kept
  · cases nothing
  · exact kept

theorem Apart.step (apart : queue.Apart) (step : queue.Step thread after) : after.Apart := by
  cases step with
  | announce node free new =>
    have fresh : ∀ other, queue.announced other ≠ some node ∧ queue.taken other ≠ some node :=
      fun other => ⟨fun here => new (.inr ⟨other, .inl here⟩), fun here => new (.inr ⟨other, .inr here⟩)⟩
    refine ⟨apart.nodup, fun other held here => ?_, apart.taken, fun one two held first second => ?_,
      apart.taken_unique, fun one two held first => ?_⟩
    · rcases update_eq_some here with ⟨-, same⟩ | ⟨-, before⟩
      · cases same
        exact fun member => new (.inl member)
      · exact apart.announced other held before
    · rcases update_eq_some first with ⟨oneSame, same⟩ | ⟨-, before⟩
      · rcases update_eq_some second with ⟨twoSame, -⟩ | ⟨-, before⟩
        · rw [oneSame, twoSame]
        · cases same
          exact absurd before (fresh two).1
      · rcases update_eq_some second with ⟨-, same⟩ | ⟨-, before'⟩
        · cases same
          exact absurd before (fresh one).1
        · exact apart.announced_unique one two held before before'
    · rcases update_eq_some first with ⟨-, same⟩ | ⟨-, before⟩
      · cases same
        exact (fresh two).2
      · exact apart.disjoint one two held before
  | link node announced =>
    have new := apart.announced thread node announced
    refine ⟨?_, fun other held here => ?_, fun other held here => ?_, fun one two held first second => ?_,
      apart.taken_unique, fun one two held first => ?_⟩
    · rw [List.nodup_append]
      refine ⟨apart.nodup, List.nodup_singleton node, fun one member two single same => ?_⟩
      rw [List.mem_singleton] at single
      subst single same
      exact new member
    · obtain ⟨different, before⟩ := of_update_none here
      rw [List.mem_append, List.mem_singleton]
      rintro (member | rfl)
      · exact apart.announced other held before member
      · exact different (apart.announced_unique other thread held before announced)
    · rw [List.mem_append, List.mem_singleton]
      rintro (member | rfl)
      · exact apart.taken other held here member
      · exact apart.disjoint thread other held announced here
    · exact apart.announced_unique one two held (of_update_none first).2 (of_update_none second).2
    · exact apart.disjoint one two held (of_update_none first).2
  | take first next rest contents free =>
    have nodup := apart.nodup
    rw [contents, List.nodup_cons] at nodup
    have inside : ∀ node ∈ next :: rest, node ∈ queue.contents := by
      intro node member
      rw [contents]
      exact List.mem_cons_of_mem _ member
    have here : first ∈ queue.contents := by
      rw [contents]
      exact List.mem_cons_self
    refine ⟨nodup.2, fun other held announced member => ?_, fun other held taken => ?_,
      apart.announced_unique, fun one two held one_ two_ => ?_, fun one two held announced taken => ?_⟩
    · exact apart.announced other held announced (inside held member)
    · rcases update_eq_some taken with ⟨-, same⟩ | ⟨-, before⟩
      · cases same
        exact nodup.1
      · exact fun member => apart.taken other held before (inside held member)
    · rcases update_eq_some one_ with ⟨oneSame, same⟩ | ⟨-, before⟩
      · rcases update_eq_some two_ with ⟨twoSame, -⟩ | ⟨-, before⟩
        · rw [oneSame, twoSame]
        · cases same
          exact absurd here (apart.taken two first before)
      · rcases update_eq_some two_ with ⟨-, same⟩ | ⟨-, before'⟩
        · cases same
          exact absurd here (apart.taken one first before)
        · exact apart.taken_unique one two held before before'
    · rcases update_eq_some taken with ⟨-, same⟩ | ⟨-, before⟩
      · cases same
        exact apart.announced one first announced here
      · exact apart.disjoint one two held announced before
  | release node taken =>
    exact ⟨apart.nodup, apart.announced, fun other held here => apart.taken other held (of_update_none here).2,
      apart.announced_unique,
      fun one two held first second =>
        apart.taken_unique one two held (of_update_none first).2 (of_update_none second).2,
      fun one two held announced here => apart.disjoint one two held announced (of_update_none here).2⟩

end Step

end AnnouncedQueue
