/-
This file is about `IDList::SingleThreadSanityCheck`. Its loop stops as soon as the next pointer of the
node it has reached is the tail, so that with two or more nodes in the list the `prev` pointers of the
last node and of the tail are never compared.
-/

import Pmwcas.DListNode
import Pmwcas.Library.Adjacent

namespace Pmwcas.DList

open Adjacency

/-! ### The check -/

/-- With `PMEM` the check first clears the dirty flags of the node it has reached. -/
def Memory.cleanNode (build : Build) (memory : Memory) (node : DListNode) : Memory :=
  match build with
  | .volatile => memory
  | .persistent => (memory.write node .next (memory node .next).clean).write node .prev
      (memory node .prev).clean

/-- The loop of the check at a node and the one before it, for at most `fuel` rounds. A failed
`RAW_CHECK` and a pointer that leads to no node end it with `false`. -/
def sanityLoop (build : Build) : Nat → Memory → Link → DListNode → Option Bool
  | 0, _, _, _ => none
  | fuel + 1, memory, link, prev =>
    match link.target with
    | none => some false
    | some node =>
      let cleaned := memory.cleanNode build node
      if cleaned prev .next ≠ link then some false
      else if cleaned node .prev ≠ .pointer prev then some false
      else if cleaned node .next = .null then some true
      else
        match (cleaned node .next).target with
        | none => some false
        | some next =>
          if cleaned next .next = .pointer .tail then some true
          else sanityLoop build fuel cleaned (cleaned node .next) node

/-- `SingleThreadSanityCheck`. -/
def singleThreadSanityCheck (build : Build) (fuel : Nat) (memory : Memory) : Option Bool :=
  if memory .head .prev ≠ .null then some false
  else if memory .head .next = .null then some false
  else if memory .tail .prev = .null then some false
  else if memory .tail .next ≠ .null then some false
  else
    let start := match build with
      | .volatile => memory
      | .persistent => memory.write .head .next (memory .head .next).clean
    sanityLoop build fuel start (start .head .next) .head

/-! ### What it promises -/

/-- A `prev` word points back to the node; with `PMEM` its dirty flag does not count. -/
def PointsBack (build : Build) (memory : Memory) (node prev : DListNode) : Prop :=
  match build with
  | .volatile => memory node .prev = .pointer prev
  | .persistent => (memory node .prev).clean = .pointer prev

/-- The nodes from the head to the tail: a list without repetition whose next pointers are clean. -/
structure Chained (memory : Memory) (inner : List DListNode) : Prop where
  nodup : (.head :: (inner ++ [.tail])).Nodup
  next : ∀ one two, Adjacent (.head :: (inner ++ [.tail])) one two → memory one .next = .pointer two

/-- Every pair of neighbours from the head to the tail is linked in both directions. -/
def WellLinked (build : Build) (memory : Memory) (inner : List DListNode) : Prop :=
  memory .head .prev = .null ∧ memory .tail .next = .null ∧
    ∀ one two, Adjacent (.head :: (inner ++ [.tail])) one two →
      memory one .next = .pointer two ∧ PointsBack build memory two one

/-- The `prev` pointers of the last node and of the tail are right. -/
def LastRight (build : Build) (memory : Memory) (inner : List DListNode) : Prop :=
  ∀ one two, Adjacent (.head :: (inner ++ [.tail])) one two →
    two = .tail ∨ inner.getLast? = some two → PointsBack build memory two one

/-- Everything else that is compared is right. -/
def FrontRight (build : Build) (memory : Memory) (inner : List DListNode) : Prop :=
  memory .head .prev = .null ∧ memory .tail .next = .null ∧ memory .tail .prev ≠ .null ∧
    ∀ one two, Adjacent (.head :: (inner ++ [.tail])) one two →
      two ≠ .tail → inner.getLast? ≠ some two → PointsBack build memory two one

/-! ### What the loop compares -/

/-- The `prev` pointers the loop compares when it goes through these nodes. -/
def Covered (build : Build) (memory : Memory) : DListNode → List DListNode → Prop
  | _, [] => True
  | prev, node :: rest =>
    PointsBack build memory node prev ∧ (rest.length = 2 ∨ Covered build memory node rest)

variable {build : Build} {memory : Memory}

theorem pointsBack_congr {other : Memory} {node prev : DListNode}
    (same : other node .prev = memory node .prev) :
    PointsBack build other node prev ↔ PointsBack build memory node prev := by
  unfold PointsBack
  rw [same]

theorem covered_congr {other : Memory} (prev : DListNode) (nodes : List DListNode)
    (same : ∀ node ∈ nodes, other node .prev = memory node .prev) :
    Covered build other prev nodes ↔ Covered build memory prev nodes := by
  induction nodes generalizing prev with
  | nil => exact Iff.rfl
  | cons node rest inductionHypothesis =>
    have later : ∀ node ∈ rest, other node .prev = memory node .prev :=
      fun node member => same node (List.mem_cons_of_mem _ member)
    unfold Covered
    rw [pointsBack_congr (same node List.mem_cons_self), inductionHypothesis node later]

theorem Memory.cleanNode_other {node other : DListNode} (different : other ≠ node)
    (field : DListNode.Field) : memory.cleanNode build node other field = memory other field := by
  cases build with
  | volatile => rfl
  | persistent =>
    exact (Memory.write_other _ different _ _ _).trans (Memory.write_other _ different _ _ _)

theorem Memory.cleanNode_next {node : DListNode}
    (clean : (memory node .next).clean = memory node .next) :
    memory.cleanNode build node node .next = memory node .next := by
  cases build with
  | volatile => rfl
  | persistent =>
    have written : memory.cleanNode .persistent node node .next = (memory node .next).clean :=
      (Memory.write_of_ne _ (by simp) _).trans (Memory.write_self _ _ _ _)
    exact written.trans clean

theorem Memory.cleanNode_prev {node prev : DListNode} :
    memory.cleanNode build node node .prev = .pointer prev ↔ PointsBack build memory node prev := by
  cases build with
  | volatile => exact Iff.rfl
  | persistent =>
    have written : memory.cleanNode .persistent node node .prev = (memory node .prev).clean :=
      Memory.write_self _ _ _ _
    rw [written]
    exact Iff.rfl

/-- Nodes that lead one to the next and end with the tail, which leads nowhere. -/
inductive Leads (memory : Memory) : List DListNode → Prop
  | tail (last : memory .tail .next = .null) : Leads memory [.tail]
  | node {node next : DListNode} {rest : List DListNode} (points : memory node .next = .pointer next)
    (later : Leads memory (next :: rest)) : Leads memory (node :: next :: rest)

theorem Leads.next_clean {node : DListNode} {rest : List DListNode}
    (leads : Leads memory (node :: rest)) : (memory node .next).clean = memory node .next := by
  cases leads with
  | tail last =>
    rw [last]
    rfl
  | node points later =>
    rw [points]
    rfl

theorem Leads.congr {other : Memory} {nodes : List DListNode} (leads : Leads memory nodes)
    (same : ∀ node ∈ nodes, other node .next = memory node .next) : Leads other nodes := by
  induction leads with
  | tail last => exact .tail ((same _ List.mem_cons_self).trans last)
  | node points later inductionHypothesis =>
    exact .node ((same _ List.mem_cons_self).trans points)
      (inductionHypothesis fun node member => same node (List.mem_cons_of_mem _ member))

theorem Leads.clean {nodes : List DListNode} (leads : Leads memory nodes) (node : DListNode)
    (clean : (memory node .next).clean = memory node .next) :
    Leads (memory.cleanNode build node) nodes := by
  refine leads.congr fun other _ => ?_
  by_cases same : other = node
  · rw [same, Memory.cleanNode_next clean]
  · exact Memory.cleanNode_other same _

theorem ne_of_nodup {one two : DListNode} {rest : List DListNode}
    (nodup : (one :: two :: rest).Nodup) : one ≠ two := by
  rintro rfl
  exact (List.nodup_cons.1 nodup).1 List.mem_cons_self

theorem Leads.ne_tail {nodes : List DListNode} {node next : DListNode}
    (leads : Leads memory (next :: nodes)) (nodup : (node :: next :: nodes).Nodup) : node ≠ .tail := by
  have tail_mem : ∀ list, Leads memory list → DListNode.tail ∈ list := by
    intro list leads
    induction leads with
    | tail last => exact List.mem_cons_self
    | node points later inductionHypothesis => exact List.mem_cons_of_mem _ inductionHypothesis
  rintro rfl
  exact (List.nodup_cons.1 nodup).1 (tail_mem _ leads)

/-- The loop stops early at the node before the last two. -/
theorem Leads.stops_iff {next : DListNode} {rest : List DListNode}
    (leads : Leads memory (next :: rest)) (nodup : (next :: rest).Nodup) :
    memory next .next = .pointer .tail ↔ (next :: rest).length = 2 := by
  cases leads with
  | tail last =>
    rw [last]
    constructor
    · intro equal
      cases equal
    · intro equal
      cases equal
  | node points later =>
    rw [points]
    cases later with
    | tail last => exact ⟨fun _ => rfl, fun _ => rfl⟩
    | node points' later' =>
      constructor
      · intro equal
        exact absurd (Link.pointer_injective equal) (later'.ne_tail (List.nodup_cons.1 nodup).2)
      · intro equal
        simp at equal

/-- The loop, run from any node, compares what is covered. -/
theorem sanityLoop_spec (build : Build) (nodes : List DListNode) (fuel : Nat) (memory : Memory)
    (prev node : DListNode) (enough : nodes.length < fuel)
    (leads : Leads memory (prev :: node :: nodes)) (nodup : (prev :: node :: nodes).Nodup) :
    ∃ verdict, sanityLoop build fuel memory (.pointer node) prev = some verdict ∧
      (verdict = true ↔ Covered build memory prev (node :: nodes)) := by
  induction nodes generalizing fuel memory prev node with
  | nil =>
    obtain ⟨fuel, rfl⟩ := Nat.exists_eq_succ_of_ne_zero (Nat.ne_of_gt enough)
    cases leads with
    | node points later =>
      have kept : memory.cleanNode build node prev .next = .pointer node :=
        (Memory.cleanNode_other (ne_of_nodup nodup) _).trans points
      have last : memory.cleanNode build node node .next = .null := by
        rw [Memory.cleanNode_next later.next_clean]
        cases later with
        | tail last => exact last
      unfold sanityLoop
      by_cases back : PointsBack build memory node prev
      · refine ⟨true, ?_, iff_of_true rfl ⟨back, .inr trivial⟩⟩
        simp [kept, Memory.cleanNode_prev.2 back, last]
      · refine ⟨false, ?_, iff_of_false Bool.false_ne_true fun covered => back covered.1⟩
        simp [kept, Memory.cleanNode_prev.not.2 back]
  | cons next rest inductionHypothesis =>
    obtain ⟨fuel, rfl⟩ := Nat.exists_eq_succ_of_ne_zero (Nat.ne_of_gt (Nat.zero_lt_of_lt enough))
    cases leads with
    | node points later =>
      have kept : memory.cleanNode build node prev .next = .pointer node :=
        (Memory.cleanNode_other (ne_of_nodup nodup) _).trans points
      have cleaned : Leads (memory.cleanNode build node) (node :: next :: rest) :=
        later.clean node later.next_clean
      have nodupLater := (List.nodup_cons.1 nodup).2
      have goes : memory.cleanNode build node node .next = .pointer next := by
        cases cleaned with
        | node points later => exact points
      have goesOn : Leads (memory.cleanNode build node) (next :: rest) := by
        cases cleaned with
        | node points later => exact later
      have stops := goesOn.stops_iff (List.nodup_cons.1 nodupLater).2
      have same : Covered build (memory.cleanNode build node) node (next :: rest) ↔
          Covered build memory node (next :: rest) := by
        refine covered_congr node (next :: rest) fun other member => Memory.cleanNode_other ?_ _
        rintro rfl
        exact (List.nodup_cons.1 nodupLater).1 member
      unfold sanityLoop
      by_cases back : PointsBack build memory node prev
      · by_cases two : (next :: rest).length = 2
        · refine ⟨true, ?_, iff_of_true rfl ⟨back, .inl two⟩⟩
          simp [kept, Memory.cleanNode_prev.2 back, goes, stops.2 two]
        · obtain ⟨verdict, ends, means⟩ := inductionHypothesis fuel (memory.cleanNode build node) node
            next (Nat.lt_of_succ_lt_succ enough) cleaned nodupLater
          refine ⟨verdict, ?_, means.trans (same.trans ?_)⟩
          · simp [kept, Memory.cleanNode_prev.2 back, goes, stops.not.2 two, ends]
          · exact ⟨fun covered => ⟨back, .inr covered⟩, fun covered => covered.2.resolve_left two⟩
      · refine ⟨false, ?_, iff_of_false Bool.false_ne_true fun covered => back covered.1⟩
        simp [kept, Memory.cleanNode_prev.not.2 back]

/-- What the loop compares in a list with at most one node: everything. -/
theorem covered_of_short {prev : DListNode} {nodes : List DListNode} (short : nodes.length ≤ 2) :
    Covered build memory prev nodes ↔
      ∀ one two, Adjacent (prev :: nodes) one two → PointsBack build memory two one := by
  match nodes, short with
  | [], _ =>
    refine iff_of_true trivial fun one two adjacent => ?_
    cases adjacent with
    | there first later => cases later
  | [node], _ =>
    constructor
    · rintro ⟨back, -⟩ one two adjacent
      cases adjacent with
      | here => exact back
      | there first later =>
        cases later with
        | there first later => cases later
    · intro all
      exact ⟨all _ _ (.here _ _ _), .inr trivial⟩
  | [node, last], _ =>
    constructor
    · rintro ⟨back, short | ⟨backLast, -⟩⟩ one two adjacent
      · cases short
      · cases adjacent with
        | here => exact back
        | there first later =>
          cases later with
          | here => exact backLast
          | there first later =>
            cases later with
            | there first later => cases later
    · intro all
      exact ⟨all _ _ (.here _ _ _), .inr ⟨all _ _ (.there _ (.here _ _ _)), .inr trivial⟩⟩

/-- What the loop compares in a longer list: everything but the last two `prev` pointers. -/
theorem covered_of_long {prev node last tail : DListNode} {front : List DListNode} :
    Covered build memory prev (node :: (front ++ [last, tail])) ↔
      ∀ one two, Adjacent (prev :: node :: front) one two → PointsBack build memory two one := by
  induction front generalizing prev node with
  | nil =>
    constructor
    · rintro ⟨back, -⟩ one two adjacent
      cases adjacent with
      | here => exact back
      | there first later =>
        cases later with
        | there first later => cases later
    · intro all
      exact ⟨all _ _ (.here _ _ _), .inl rfl⟩
  | cons second front inductionHypothesis =>
    have longer : (second :: front ++ [last, tail]).length ≠ 2 := by simp
    have unfolded : Covered build memory prev (node :: (second :: front ++ [last, tail])) ↔
        PointsBack build memory node prev ∧
          ∀ one two, Adjacent (node :: second :: front) one two → PointsBack build memory two one := by
      rw [← inductionHypothesis]
      exact and_congr_right fun _ => or_iff_right longer
    rw [unfolded]
    constructor
    · rintro ⟨back, all⟩ one two adjacent
      cases adjacent with
      | here => exact back
      | there first later => exact all one two later
    · intro all
      exact ⟨all _ _ (.here _ _ _), fun one two adjacent => all one two (.there _ adjacent)⟩

/-! ### What the check decides -/

theorem Chained.leads {inner : List DListNode} (chained : Chained memory inner)
    (last : memory .tail .next = .null) : Leads memory (.head :: (inner ++ [.tail])) := by
  have behind : ∀ (nodes : List DListNode) (first : DListNode),
      (∀ one two, Adjacent (first :: (nodes ++ [.tail])) one two → memory one .next = .pointer two) →
        Leads memory (first :: (nodes ++ [.tail])) := by
    intro nodes
    induction nodes with
    | nil =>
      intro first next
      exact .node (next _ _ (.here _ _ _)) (.tail last)
    | cons node nodes inductionHypothesis =>
      intro first next
      exact .node (next _ _ (.here _ _ _))
        (inductionHypothesis node fun one two adjacent => next one two (.there _ adjacent))
  exact behind inner .head chained.next

/-- The check ends with a verdict, and passes when what it compares is right. -/
theorem singleThreadSanityCheck_spec (build : Build) {inner : List DListNode} (chained : Chained memory inner)
    {fuel : Nat} (enough : inner.length < fuel) :
    ∃ verdict, singleThreadSanityCheck build fuel memory = some verdict ∧
      (verdict = true ↔ memory .head .prev = .null ∧ memory .tail .next = .null ∧
        memory .tail .prev ≠ .null ∧ Covered build memory .head (inner ++ [.tail])) := by
  obtain ⟨node, nodes, split⟩ : ∃ node nodes, inner ++ [DListNode.tail] = node :: nodes := by
    cases inner with
    | nil => exact ⟨_, _, rfl⟩
    | cons node inner => exact ⟨_, _, rfl⟩
  have next : memory .head .next = .pointer node := by
    refine chained.next _ _ ?_
    rw [split]
    exact .here _ _ _
  have kept : memory.write .head .next (memory .head .next).clean = memory := by
    funext other field
    by_cases same : other = .head ∧ field = .next
    · obtain ⟨rfl, rfl⟩ := same
      rw [Memory.write_self, next, Link.pointer_clean]
    · exact Memory.write_of_ne _ same _
  by_cases first : memory .head .prev = .null
  · by_cases last : memory .tail .next = .null
    · by_cases back : memory .tail .prev = .null
      · refine ⟨false, ?_, iff_of_false Bool.false_ne_true fun right => right.2.2.1 back⟩
        simp [singleThreadSanityCheck, first, next, back]
      · have leads := chained.leads last
        have nodup := chained.nodup
        rw [split] at leads nodup
        have length : nodes.length < fuel := by
          have same := congrArg List.length split
          rw [List.length_append, List.length_singleton, List.length_cons] at same
          omega
        obtain ⟨verdict, ends, means⟩ :=
          sanityLoop_spec build nodes fuel memory .head node length leads nodup
        refine ⟨verdict, ?_, ?_⟩
        · cases build with
          | volatile => simp [singleThreadSanityCheck, first, last, back, next, ends]
          | persistent =>
            unfold singleThreadSanityCheck
            rw [kept]
            simp [first, last, back, next, ends]
        · rw [means, split]
          exact ⟨fun covered => ⟨first, last, back, covered⟩, fun right => right.2.2.2⟩
    · refine ⟨false, ?_, iff_of_false Bool.false_ne_true fun right => last right.2.1⟩
      simp [singleThreadSanityCheck, first, next, last]
  · refine ⟨false, ?_, iff_of_false Bool.false_ne_true fun right => first right.1⟩
    simp [singleThreadSanityCheck, first]

theorem PointsBack.ne_null {node prev : DListNode} (back : PointsBack build memory node prev) :
    memory node .prev ≠ .null := by
  intro null
  cases build with
  | volatile =>
    unfold PointsBack at back
    rw [null] at back
    cases back
  | persistent =>
    unfold PointsBack at back
    rw [null] at back
    cases back

/-- The tail has a node before it. -/
theorem exists_adjacent_tail (inner : List DListNode) :
    ∃ one, Adjacent (.head :: (inner ++ [.tail])) one .tail := by
  refine exists_adjacent_left ?_ (by decide)
  simp

theorem wellLinked_of_short {inner : List DListNode} (chained : Chained memory inner)
    (short : inner.length ≤ 1) :
    (memory .head .prev = .null ∧ memory .tail .next = .null ∧ memory .tail .prev ≠ .null ∧
      Covered build memory .head (inner ++ [.tail])) ↔ WellLinked build memory inner := by
  have two : (inner ++ [DListNode.tail]).length ≤ 2 := by
    rw [List.length_append, List.length_singleton]
    omega
  rw [covered_of_short two]
  constructor
  · rintro ⟨first, last, -, all⟩
    exact ⟨first, last, fun one two adjacent => ⟨chained.next one two adjacent, all one two adjacent⟩⟩
  · rintro ⟨first, last, all⟩
    obtain ⟨one, adjacent⟩ := exists_adjacent_tail inner
    exact ⟨first, last, (all one _ adjacent).2.ne_null, fun one two adjacent => (all one two adjacent).2⟩

theorem wellLinked_iff {inner : List DListNode} (chained : Chained memory inner) :
    WellLinked build memory inner ↔
      FrontRight build memory inner ∧ LastRight build memory inner := by
  constructor
  · rintro ⟨first, last, all⟩
    obtain ⟨one, adjacent⟩ := exists_adjacent_tail inner
    exact ⟨⟨first, last, (all one _ adjacent).2.ne_null,
      fun one two adjacent _ _ => (all one two adjacent).2⟩,
      fun one two adjacent _ => (all one two adjacent).2⟩
  · rintro ⟨⟨first, last, -, front⟩, back⟩
    refine ⟨first, last, fun one two adjacent => ⟨chained.next one two adjacent, ?_⟩⟩
    by_cases atEnd : two = .tail ∨ inner.getLast? = some two
    · exact back one two adjacent atEnd
    · rw [not_or] at atEnd
      exact front one two adjacent atEnd.1 atEnd.2

/-- The pairs in front of the last node are the pairs of the nodes before it. -/
theorem adjacent_front {prev node last : DListNode} {front : List DListNode}
    (nodup : (prev :: (node :: (front ++ [last]) ++ [.tail])).Nodup) {one two : DListNode} :
    Adjacent (prev :: node :: front) one two ↔
      Adjacent (prev :: (node :: (front ++ [last]) ++ [.tail])) one two ∧ two ≠ .tail ∧ two ≠ last := by
  obtain ⟨before, final, ends⟩ : ∃ before final, prev :: node :: front = before ++ [final] :=
    ⟨_, _, (List.dropLast_append_getLast (List.cons_ne_nil prev (node :: front))).symm⟩
  have whole : prev :: (node :: (front ++ [last]) ++ [.tail]) =
      before ++ final :: last :: [DListNode.tail] := by
    calc prev :: (node :: (front ++ [last]) ++ [.tail])
        = (prev :: node :: front) ++ [last, .tail] := by simp
      _ = before ++ final :: last :: [DListNode.tail] := by rw [ends]; simp
  rw [whole] at nodup ⊢
  have parts : Adjacent (before ++ final :: last :: [DListNode.tail]) one two ↔
      Adjacent (before ++ [final]) one two ∨ Adjacent (final :: last :: [DListNode.tail]) one two :=
    adjacent_append_cons
  rw [ends, parts]
  constructor
  · intro adjacent
    have member : two ∈ before ++ [final] := adjacent.right_mem
    rw [show before ++ final :: last :: [DListNode.tail] = (before ++ [final]) ++ [last, .tail] by simp,
      List.nodup_append] at nodup
    refine ⟨.inl adjacent, ?_, ?_⟩
    · exact nodup.2.2 two member _ (by simp)
    · exact nodup.2.2 two member _ (by simp)
  · rintro ⟨early | late, notTail, notLast⟩
    · exact early
    · cases late with
      | here => exact absurd rfl notLast
      | there first later =>
        cases later with
        | here => exact absurd rfl notTail
        | there first later => cases later with
          | there first later => cases later

theorem frontRight_of_long {node last : DListNode} {front : List DListNode}
    (chained : Chained memory (node :: (front ++ [last]))) :
    (memory .head .prev = .null ∧ memory .tail .next = .null ∧ memory .tail .prev ≠ .null ∧
      Covered build memory .head (node :: (front ++ [last]) ++ [.tail])) ↔
        FrontRight build memory (node :: (front ++ [last])) := by
  have shape : node :: (front ++ [last]) ++ [DListNode.tail] = node :: (front ++ [last, .tail]) := by
    simp
  have final : (node :: (front ++ [last])).getLast? = some last := by
    rw [← List.cons_append, List.getLast?_append]
    rfl
  unfold FrontRight
  rw [final]
  refine and_congr_right fun _ => and_congr_right fun _ => and_congr_right fun _ => ?_
  rw [shape, covered_of_long]
  constructor
  · intro all one two adjacent notTail notLast
    refine all one two ((adjacent_front chained.nodup).2 ⟨shape ▸ adjacent, notTail, ?_⟩)
    rintro rfl
    exact notLast rfl
  · intro all one two adjacent
    obtain ⟨later, notTail, notLast⟩ := (adjacent_front chained.nodup).1 adjacent
    exact all one two (shape ▸ later) notTail fun same => notLast (Option.some.inj same).symm

/-- The check ends with a verdict on every list. The verdict is the promised one exactly when there
is at most one node between the head and the tail, or the two `prev` pointers that are not compared
happen to be right, or something that is compared is wrong anyway. -/
theorem passes_iff_wellLinked_iff {inner : List DListNode} (chained : Chained memory inner)
    {fuel : Nat} (enough : inner.length < fuel) :
    (∃ verdict, singleThreadSanityCheck build fuel memory = some verdict) ∧
      ((singleThreadSanityCheck build fuel memory = some true ↔ WellLinked build memory inner) ↔
        inner.length ≤ 1 ∨ LastRight build memory inner ∨ ¬ FrontRight build memory inner) := by
  obtain ⟨verdict, ends, means⟩ := singleThreadSanityCheck_spec build chained enough
  refine ⟨⟨verdict, ends⟩, ?_⟩
  rw [ends, Option.some_inj, means]
  by_cases short : inner.length ≤ 1
  · exact iff_of_true (wellLinked_of_short chained short) (.inl short)
  · obtain ⟨node, front, last, rfl⟩ : ∃ node front last, inner = node :: (front ++ [last]) := by
      cases inner with
      | nil => exact absurd (Nat.zero_le _) short
      | cons node rest =>
        have some : rest ≠ [] := by
          rintro rfl
          exact short (Nat.le_refl _)
        exact ⟨node, _, _, congrArg _ (List.dropLast_append_getLast some).symm⟩
    rw [frontRight_of_long chained, wellLinked_iff chained]
    tauto

/-- Two nodes, the second of which has the head as its `prev` instead of the first. -/
def wrongLast : Memory
  | .head, .next => .pointer (.new 0)
  | .new 0, .prev => .pointer .head
  | .new 0, .next => .pointer (.new 1)
  | .new 1, .prev => .pointer .head
  | .new 1, .next => .pointer .tail
  | .tail, .prev => .pointer (.new 1)
  | _, _ => .null

theorem chained_wrongLast : Chained wrongLast [.new 0, .new 1] := by
  refine ⟨by decide, fun one two adjacent => ?_⟩
  cases adjacent with
  | here => rfl
  | there first later =>
    cases later with
    | here => rfl
    | there first later =>
      cases later with
      | here => rfl
      | there first later =>
        cases later with
        | there first later => cases later

theorem passes_iff_wellLinked_iff_wrongLast :
    Chained wrongLast [.new 0, .new 1] ∧
      ((singleThreadSanityCheck .volatile 3 wrongLast = some true ↔
          WellLinked .volatile wrongLast [.new 0, .new 1]) ↔
        [DListNode.new 0, .new 1].length ≤ 1 ∨ LastRight .volatile wrongLast [.new 0, .new 1] ∨
          ¬ FrontRight .volatile wrongLast [.new 0, .new 1]) :=
  ⟨chained_wrongLast, (passes_iff_wellLinked_iff chained_wrongLast (by decide)).2⟩

/-- The check passes although the second node does not point back to the first. -/
theorem exists_passes_not_wellLinked :
    ∃ memory inner, Chained memory inner ∧
      singleThreadSanityCheck .volatile (inner.length + 1) memory = some true ∧
        ¬ WellLinked .volatile memory inner := by
  refine ⟨wrongLast, [.new 0, .new 1], chained_wrongLast, by decide, fun linked => ?_⟩
  have back : PointsBack .volatile wrongLast (.new 1) (.new 0) :=
    (linked.2.2 _ _ (.there _ (.here _ _ _))).2
  exact absurd back (by unfold PointsBack; decide)

end Pmwcas.DList
