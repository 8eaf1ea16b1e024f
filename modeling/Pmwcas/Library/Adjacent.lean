/-
This file is about neighbours in a list without repetition. A node has one neighbour on each side; a
node that is put between two neighbours, or taken out between its two neighbours, changes these and no
others.
-/

import Mathlib.Data.List.Nodup

namespace Adjacency

variable {Node : Type}

/-- The two nodes stand next to each other in the list. -/
inductive Adjacent : List Node → Node → Node → Prop
  | here (one two : Node) (rest : List Node) : Adjacent (one :: two :: rest) one two
  | there {one two : Node} {rest : List Node} (first : Node) (later : Adjacent rest one two) :
    Adjacent (first :: rest) one two

theorem Adjacent.left_mem {order : List Node} {one two : Node} (adjacent : Adjacent order one two) :
    one ∈ order := by
  induction adjacent with
  | here one two rest => exact List.mem_cons_self
  | there first later inductionHypothesis => exact List.mem_cons_of_mem _ inductionHypothesis

theorem Adjacent.right_mem {order : List Node} {one two : Node} (adjacent : Adjacent order one two) :
    two ∈ order := by
  induction adjacent with
  | here one two rest => exact List.mem_cons_of_mem _ List.mem_cons_self
  | there first later inductionHypothesis => exact List.mem_cons_of_mem _ inductionHypothesis

theorem Adjacent.exists_split {order : List Node} {one two : Node}
    (adjacent : Adjacent order one two) : ∃ front back, order = front ++ one :: two :: back := by
  induction adjacent with
  | here one two rest => exact ⟨[], rest, rfl⟩
  | there first later inductionHypothesis =>
    obtain ⟨front, back, rfl⟩ := inductionHypothesis
    exact ⟨first :: front, back, rfl⟩

theorem adjacent_of_split (front : List Node) (one two : Node) (back : List Node) :
    Adjacent (front ++ one :: two :: back) one two := by
  induction front with
  | nil => exact .here one two back
  | cons first front inductionHypothesis => exact .there first inductionHypothesis

/-- Neighbours in two parts of a list that share one node. -/
theorem adjacent_append_cons {front : List Node} {middle : Node} {back : List Node}
    {one two : Node} :
    Adjacent (front ++ middle :: back) one two ↔
      Adjacent (front ++ [middle]) one two ∨ Adjacent (middle :: back) one two := by
  induction front with
  | nil =>
    refine ⟨.inr, ?_⟩
    rintro (early | late)
    · cases early with
      | there first later => cases later
    · exact late
  | cons first front inductionHypothesis =>
    have firstPair : ∀ rest, Adjacent (first :: (front ++ middle :: rest)) one two →
        Adjacent (first :: (front ++ [middle])) one two ∨
          Adjacent (front ++ middle :: rest) one two := by
      intro rest adjacent
      generalize shape : front ++ middle :: rest = list at adjacent
      cases adjacent with
      | there _ later => exact .inr later
      | here _ _ tail =>
        cases front with
        | nil =>
          cases shape
          exact .inl (.here _ _ [])
        | cons second front =>
          cases shape
          exact .inl (.here one two (front ++ [middle]))
    constructor
    · intro adjacent
      rcases firstPair back adjacent with early | later
      · exact .inl early
      · rcases inductionHypothesis.1 later with early | late
        · exact .inl (.there first early)
        · exact .inr late
    · rintro (early | late)
      · rw [List.cons_append] at early
        generalize shape : front ++ [middle] = list at early
        cases early with
        | there _ later => exact .there first (inductionHypothesis.2 (.inl (shape ▸ later)))
        | here _ _ tail =>
          cases front with
          | nil =>
            cases shape
            exact .here _ _ back
          | cons second front =>
            cases shape
            exact .here _ _ (front ++ middle :: back)
      · exact .there first (inductionHypothesis.2 (.inr late))

/-! ### Neighbours are unique -/

theorem Adjacent.right_unique {order : List Node} (nodup : order.Nodup) {one two other : Node}
    (adjacent : Adjacent order one two) (again : Adjacent order one other) : two = other := by
  induction adjacent with
  | here one two rest =>
    cases again with
    | here => rfl
    | there _ later => exact absurd later.left_mem (List.nodup_cons.1 nodup).1
  | there first later inductionHypothesis =>
    cases again with
    | here => exact absurd later.left_mem (List.nodup_cons.1 nodup).1
    | there _ later' => exact inductionHypothesis (List.nodup_cons.1 nodup).2 later'

theorem Adjacent.right_ne_head {rest : List Node} {first one two : Node}
    (nodup : (first :: rest).Nodup) (adjacent : Adjacent (first :: rest) one two) : two ≠ first := by
  rintro rfl
  cases adjacent with
  | here => exact (List.nodup_cons.1 nodup).1 List.mem_cons_self
  | there _ later => exact (List.nodup_cons.1 nodup).1 later.right_mem

theorem Adjacent.left_unique {order : List Node} (nodup : order.Nodup) {one two other : Node}
    (adjacent : Adjacent order one two) (again : Adjacent order other two) : one = other := by
  induction adjacent with
  | here one two rest =>
    cases again with
    | here => rfl
    | there _ later =>
      exact absurd rfl (later.right_ne_head (List.nodup_cons.1 nodup).2)
  | there first later inductionHypothesis =>
    cases again with
    | here _ _ rest => exact absurd rfl (later.right_ne_head (List.nodup_cons.1 nodup).2)
    | there _ later' => exact inductionHypothesis (List.nodup_cons.1 nodup).2 later'

/-- Every node but the last one has a neighbour behind it. -/
theorem exists_adjacent_right {order : List Node} {node last : Node} (member : node ∈ order)
    (end_ : order.getLast? = some last) (notLast : node ≠ last) :
    ∃ other, Adjacent order node other := by
  induction order with
  | nil => cases member
  | cons first rest inductionHypothesis =>
    cases rest with
    | nil =>
      rw [List.mem_singleton] at member
      cases end_
      exact absurd member notLast
    | cons second rest =>
      rcases List.mem_cons.1 member with rfl | later
      · exact ⟨second, .here node second rest⟩
      · obtain ⟨other, adjacent⟩ := inductionHypothesis later (by rwa [List.getLast?_cons_cons] at end_)
        exact ⟨other, .there first adjacent⟩

/-- Every node but the first one has a neighbour before it. -/
theorem exists_adjacent_left {rest : List Node} {first node : Node} (member : node ∈ first :: rest)
    (notFirst : node ≠ first) : ∃ other, Adjacent (first :: rest) other node := by
  induction rest generalizing first with
  | nil => exact absurd (List.mem_singleton.1 member) notFirst
  | cons second rest inductionHypothesis =>
    by_cases same : node = second
    · subst same
      exact ⟨first, .here first node rest⟩
    · have later : node ∈ second :: rest := (List.mem_cons.1 member).resolve_left notFirst
      obtain ⟨other, adjacent⟩ := inductionHypothesis later same
      exact ⟨other, .there first adjacent⟩

/-- The last node has no neighbour behind it. -/
theorem Adjacent.left_ne_last {order : List Node} (nodup : order.Nodup) {one two last : Node}
    (adjacent : Adjacent order one two) (end_ : order.getLast? = some last) : one ≠ last := by
  induction adjacent with
  | here one two rest =>
    rw [List.getLast?_cons_cons] at end_
    rintro rfl
    exact (List.nodup_cons.1 nodup).1 (List.mem_of_getLast? end_)
  | @there one two rest first later inductionHypothesis =>
    cases rest with
    | nil => cases later
    | cons second rest =>
      exact inductionHypothesis (List.nodup_cons.1 nodup).2 (by rwa [List.getLast?_cons_cons] at end_)

/-! ### A node between two neighbours -/

/-- `longer` is `shorter` with `node` put between the neighbours `one` and `two`. -/
structure Between (shorter longer : List Node) (one node two : Node) : Prop where
  splits : ∃ front back, shorter = front ++ one :: two :: back ∧
    longer = front ++ one :: node :: two :: back

section Between

variable {shorter longer : List Node} {one node two : Node}

theorem exists_between (adjacent : Adjacent shorter one two) (node : Node) :
    ∃ longer, Between shorter longer one node two := by
  obtain ⟨front, back, split⟩ := adjacent.exists_split
  exact ⟨_, front, back, split, rfl⟩

/-- The list without a node that has neighbours on both sides. -/
theorem exists_between_of_adjacent (nodup : longer.Nodup) (left : Adjacent longer one node)
    (right : Adjacent longer node two) : ∃ shorter, Between shorter longer one node two := by
  obtain ⟨front, back, rfl⟩ := left.exists_split
  have behind : ∃ rest, back = two :: rest := by
    cases back with
    | nil =>
      have end_ : (front ++ [one, node]).getLast? = some node := by simp
      exact absurd rfl (right.left_ne_last nodup end_)
    | cons other rest =>
      rw [show front ++ one :: node :: other :: rest = (front ++ [one]) ++ node :: other :: rest by
        simp] at right nodup
      exact ⟨rest, by rw [right.right_unique nodup (adjacent_of_split _ _ _ _)]⟩
  obtain ⟨rest, rfl⟩ := behind
  exact ⟨_, front, rest, rfl, rfl⟩

theorem Between.adjacent (between : Between shorter longer one node two) :
    Adjacent shorter one two := by
  obtain ⟨front, back, rfl, -⟩ := between.splits
  exact adjacent_of_split front one two back

theorem Between.adjacent_left (between : Between shorter longer one node two) :
    Adjacent longer one node := by
  obtain ⟨front, back, -, rfl⟩ := between.splits
  exact adjacent_of_split front one node (two :: back)

theorem Between.adjacent_right (between : Between shorter longer one node two) :
    Adjacent longer node two := by
  obtain ⟨front, back, -, rfl⟩ := between.splits
  rw [show front ++ one :: node :: two :: back = (front ++ [one]) ++ node :: two :: back by simp]
  exact adjacent_of_split (front ++ [one]) node two back

theorem Between.mem_iff (between : Between shorter longer one node two) (other : Node) :
    other ∈ longer ↔ other = node ∨ other ∈ shorter := by
  obtain ⟨front, back, rfl, rfl⟩ := between.splits
  simp only [List.mem_append, List.mem_cons]
  tauto

theorem Between.nodup_iff (between : Between shorter longer one node two) :
    longer.Nodup ↔ node ∉ shorter ∧ shorter.Nodup := by
  obtain ⟨front, back, rfl, rfl⟩ := between.splits
  have moved : (front ++ one :: node :: two :: back).Perm (node :: (front ++ one :: two :: back)) := by
    rw [show front ++ one :: node :: two :: back = (front ++ [one]) ++ node :: two :: back by simp,
      show front ++ one :: two :: back = (front ++ [one]) ++ two :: back by simp]
    exact List.perm_middle
  rw [moved.nodup_iff, List.nodup_cons]

theorem Between.head? (between : Between shorter longer one node two) :
    longer.head? = shorter.head? := by
  obtain ⟨front, back, rfl, rfl⟩ := between.splits
  cases front with
  | nil => rfl
  | cons => rfl

theorem Between.getLast? (between : Between shorter longer one node two) :
    longer.getLast? = shorter.getLast? := by
  obtain ⟨front, back, rfl, rfl⟩ := between.splits
  simp [List.getLast?_append, List.getLast?_cons_cons]

/-- Neighbours after a node was put in. -/
theorem Between.adjacent_longer (between : Between shorter longer one node two)
    (nodup : longer.Nodup) {left right : Node} (adjacent : Adjacent longer left right) :
    left = one ∧ right = node ∨ left = node ∧ right = two ∨
      Adjacent shorter left right ∧ left ≠ one ∧ right ≠ two := by
  by_cases isOne : left = one
  · subst isOne
    exact .inl ⟨rfl, adjacent.right_unique nodup between.adjacent_left⟩
  · by_cases isTwo : right = two
    · subst isTwo
      exact .inr (.inl ⟨adjacent.left_unique nodup between.adjacent_right, rfl⟩)
    · refine .inr (.inr ⟨?_, isOne, isTwo⟩)
      obtain ⟨front, back, rfl, rfl⟩ := between.splits
      rw [adjacent_append_cons] at adjacent ⊢
      refine adjacent.imp id fun late => ?_
      cases late with
      | here => exact absurd rfl isOne
      | there _ later =>
        cases later with
        | here => exact absurd rfl isTwo
        | there _ later => exact .there one later

/-- Neighbours after a node was taken out. -/
theorem Between.adjacent_shorter (between : Between shorter longer one node two)
    (nodup : longer.Nodup) {left right : Node} (adjacent : Adjacent shorter left right) :
    left = one ∧ right = two ∨
      Adjacent longer left right ∧ left ≠ one ∧ right ≠ two ∧ left ≠ node ∧ right ≠ node := by
  obtain ⟨absent, nodupShorter⟩ := between.nodup_iff.1 nodup
  by_cases isOne : left = one
  · subst isOne
    exact .inl ⟨rfl, adjacent.right_unique nodupShorter between.adjacent⟩
  · by_cases isTwo : right = two
    · subst isTwo
      exact .inl ⟨adjacent.left_unique nodupShorter between.adjacent, rfl⟩
    · refine .inr ⟨?_, isOne, isTwo, ?_, ?_⟩
      · obtain ⟨front, back, rfl, rfl⟩ := between.splits
        rw [adjacent_append_cons] at adjacent ⊢
        refine adjacent.imp id fun late => ?_
        cases late with
        | here => exact absurd rfl isOne
        | there _ later => exact .there one (.there node later)
      · rintro rfl
        exact absent adjacent.left_mem
      · rintro rfl
        exact absent adjacent.right_mem

end Between

end Adjacency
