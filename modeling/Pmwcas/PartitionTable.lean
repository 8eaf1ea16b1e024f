/-
This file is about the loop that distributes the elements of a pool over a table of partitions: in
the constructor of `DescriptorPool`, in `NodePool::init` and in the pools of the benchmarks. The
loop puts the elements on the free list of one partition and goes on to the next whenever the number
of elements done is a multiple of the quotient of the two sizes. It stays inside the table, and does
not divide by zero, exactly if the number of partitions divides the number of elements.

The links and the partition are those of `DescriptorPartition.lean`; what is added here is what the
loop does not check.
-/

import Pmwcas.DescriptorConservation

namespace Pmwcas.PartitionTable

open DescriptorPartition

/-! ### The loop -/

/-- How the loop goes wrong. -/
inductive Fault where
  | divisionByZero
  /-- A partition behind the end of the table is written. -/
  | outsideTable
  deriving DecidableEq, Repr

/-- The variables before the loop. -/
def start : Distribution where
  nextPtr _ := none
  freeList _ := none
  partition := 0

/-- One round of the loop, for element `i`. -/
def round (partitionCount perPartition : Nat) (state : Distribution) (i : Nat) :
    Except Fault Distribution :=
  if partitionCount ≤ state.partition then .error .outsideTable
  else if perPartition = 0 then .error .divisionByZero
  else .ok (state.add perPartition i)

/-- The loop over `size` elements and the division before it. -/
def distribute (size partitionCount : Nat) : Except Fault Distribution :=
  if partitionCount = 0 then .error .divisionByZero
  else (List.range size).foldlM (round partitionCount (size / partitionCount)) start

/-- `NodePool::init`. `initiCommon` and `initialize` leave the links of the pool alone. -/
def nodePoolInit (poolSize partitionCount : UInt32) : Except Fault Distribution :=
  distribute poolSize.toNat partitionCount.toNat

/-! ### The elements of a partition -/

/-- The elements below `count` that a partition gets, the last one first. -/
def elements (perPartition count partition : Nat) : List Nat :=
  ((List.range count).filter fun i => i / perPartition = partition).reverse

theorem round_eq_ok_iff {partitionCount perPartition i : Nat} {state after : Distribution} :
    round partitionCount perPartition state i = .ok after ↔
      state.partition < partitionCount ∧ 0 < perPartition ∧ state.add perPartition i = after := by
  rw [round]
  split
  · rename_i outside
    refine iff_of_false (fun impossible => by cases impossible) ?_
    rintro ⟨inside, -⟩
    omega
  · split
    · rename_i zero
      refine iff_of_false (fun impossible => by cases impossible) ?_
      rintro ⟨-, positive, -⟩
      omega
    · rename_i inside positive
      rw [Except.ok.injEq]
      exact ⟨fun same => ⟨by omega, by omega, same⟩, fun all => all.2.2⟩

/-- The rounds succeed as long as the partition they are at is in the table. -/
theorem foldlM_round (partitionCount perPartition count : Nat) (state : Distribution) :
    (List.range count).foldlM (round partitionCount perPartition) start = .ok state ↔
      (∀ i < count, 0 < perPartition ∧ i / perPartition < partitionCount) ∧
        (List.range count).foldl (Distribution.add perPartition) start = state := by
  induction count generalizing state with
  | zero =>
    simp only [List.range_zero, List.foldlM_nil, List.foldl_nil]
    exact ⟨fun same => ⟨fun i below => absurd below (Nat.not_lt_zero i), Except.ok.inj same⟩,
      fun both => congrArg Except.ok both.2⟩
  | succ count inductionHypothesis =>
    rw [List.range_succ, List.foldlM_append, List.foldl_append]
    have partition : ((List.range count).foldl (Distribution.add perPartition) start).partition =
        count / perPartition := (foldl_add perPartition count).1
    cases before : (List.range count).foldlM (round partitionCount perPartition) start with
    | error fault =>
      refine iff_of_false (fun impossible => by cases impossible) ?_
      rintro ⟨inside, -⟩
      have done := (inductionHypothesis _).2 ⟨fun i below => inside i (Nat.lt_succ_of_lt below), rfl⟩
      rw [done] at before
      cases before
    | ok middle =>
      obtain ⟨inside, rfl⟩ := (inductionHypothesis middle).1 before
      simp only [List.foldlM_cons, List.foldlM_nil, bind_pure, List.foldl_cons, List.foldl_nil]
      refine round_eq_ok_iff.trans ?_
      rw [partition]
      constructor
      · rintro ⟨last, positive, same⟩
        refine ⟨fun i below => ?_, same⟩
        rcases Nat.lt_succ_iff_lt_or_eq.1 below with earlier | rfl
        · exact inside i earlier
        · exact ⟨positive, last⟩
      · rintro ⟨all, same⟩
        exact ⟨(all count (Nat.lt_succ_self count)).2, (all count (Nat.lt_succ_self count)).1, same⟩

/-- All indices are in the table exactly if the table divides the pool. -/
theorem index_lt_iff {size partitionCount : Nat} (positive : 0 < partitionCount) :
    (∀ i < size, 0 < size / partitionCount ∧ i / (size / partitionCount) < partitionCount) ↔
      partitionCount ∣ size := by
  constructor
  · intro inside
    rcases Nat.eq_zero_or_pos size with rfl | some_
    · exact dvd_zero partitionCount
    · obtain ⟨quotient, last⟩ := inside (size - 1) (Nat.sub_lt some_ Nat.one_pos)
      rw [Nat.div_lt_iff_lt_mul quotient] at last
      have whole : partitionCount * (size / partitionCount) ≤ size := Nat.mul_div_le size partitionCount
      exact Dvd.intro (size / partitionCount) (by omega)
  · rintro ⟨quotient, rfl⟩ i below
    rw [Nat.mul_div_cancel_left quotient positive]
    have some_ : 0 < quotient := Nat.pos_of_mul_pos_left (Nat.zero_lt_of_lt below)
    exact ⟨some_, (Nat.div_lt_iff_lt_mul some_).2 below⟩

/-- Every element is on the free list of exactly one partition of the table, once. -/
def Distributed (size partitionCount : Nat) (state : Distribution) : Prop :=
  ∃ lists : Nat → List Nat,
    (∀ partition < partitionCount,
      Chain state.nextPtr (state.freeList partition) (lists partition)) ∧
    ∀ i < size, ∃ partition < partitionCount, (lists partition).count i = 1 ∧
      ∀ other < partitionCount, other ≠ partition → i ∉ lists other

theorem mem_elements {perPartition count partition i : Nat} :
    i ∈ elements perPartition count partition ↔ i < count ∧ i / perPartition = partition := by
  simp [elements]

theorem nodup_elements (perPartition count partition : Nat) :
    (elements perPartition count partition).Nodup :=
  List.nodup_reverse.2 (List.nodup_range.filter _)

/-- What the loop leaves when it succeeds. -/
theorem distribute_eq_ok_iff {size partitionCount : Nat} (positive : 0 < partitionCount)
    (state : Distribution) :
    distribute size partitionCount = .ok state ↔
      partitionCount ∣ size ∧
        (List.range size).foldl (Distribution.add (size / partitionCount)) start = state := by
  rw [distribute, if_neg (Nat.ne_of_gt positive), foldlM_round, index_lt_iff positive]

theorem chain_of_distribute {size partitionCount : Nat} {state : Distribution}
    (positive : 0 < partitionCount) (done : distribute size partitionCount = .ok state)
    (partition : Nat) :
    Chain state.nextPtr (state.freeList partition)
      (elements (size / partitionCount) size partition) := by
  obtain ⟨-, rfl⟩ := (distribute_eq_ok_iff positive state).1 done
  exact (foldl_add (size / partitionCount) size).2 partition

theorem distributed_of_distribute {size partitionCount : Nat} {state : Distribution}
    (positive : 0 < partitionCount) (done : distribute size partitionCount = .ok state) :
    Distributed size partitionCount state := by
  refine ⟨elements (size / partitionCount) size,
    fun partition _ => chain_of_distribute positive done partition, fun i inside => ?_⟩
  have divides := ((distribute_eq_ok_iff positive state).1 done).1
  obtain ⟨quotient, below⟩ := (index_lt_iff positive).2 divides i inside
  refine ⟨i / (size / partitionCount), below, ?_, fun other _ different member => ?_⟩
  · exact List.count_eq_one_of_mem (nodup_elements _ _ _) (mem_elements.2 ⟨inside, rfl⟩)
  · exact different (mem_elements.1 member).2.symm

/-- `NodePool::init` stays inside its table and puts every node on one free list exactly if the number
of partitions divides the number of nodes. -/
theorem nodePoolInit_distributed_iff (poolSize partitionCount : UInt32) (positive : 1 ≤ partitionCount) :
    (∃ state, nodePoolInit poolSize partitionCount = .ok state ∧
      Distributed poolSize.toNat partitionCount.toNat state) ↔
      partitionCount.toNat ∣ poolSize.toNat := by
  have table : 0 < partitionCount.toNat := UInt32.le_iff_toNat_le.1 positive
  constructor
  · rintro ⟨state, done, -⟩
    exact ((distribute_eq_ok_iff table state).1 done).1
  · intro divides
    have done := (distribute_eq_ok_iff table _).2 ⟨divides, rfl⟩
    exact ⟨_, done, distributed_of_distribute table done⟩

theorem nodePoolInit_distributed_iff_three :
    (∃ state, nodePoolInit 6 3 = .ok state ∧ Distributed 6 3 state) ↔ 3 ∣ 6 :=
  nodePoolInit_distributed_iff 6 3 (by decide)

/-- Ten nodes for four partitions end behind the table, three for eight with a division by zero. -/
theorem exists_nodePoolInit_fault :
    nodePoolInit 10 4 = .error .outsideTable ∧ nodePoolInit 3 8 = .error .divisionByZero :=
  ⟨rfl, rfl⟩

end Pmwcas.PartitionTable
