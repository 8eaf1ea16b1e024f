/-
This file is about the two sizes that `BaseDescriptorPool::initVariable` rounds up, both by doubling
a 32-bit number, and about the partitions that the threads of a pool get. The loop for the pool
ends with the first power of two that is large enough; above 2^31 there is none, the number becomes
zero and the loop does not end. The loop for the partitions has a fixed number of rounds as well, of
which nine double the number: it ends at 512 at most, where its comment says 1024.

Below both limits the loop of the constructor of `DescriptorPool` gives every partition the same
number of descriptors, and threads get partitions of their own as long as there are some.
-/

import Mathlib.Data.Nat.Log
import Mathlib.Order.Bounds.Basic
import Pmwcas.Library.Result
import Pmwcas.PartitionTable

namespace Pmwcas.PoolVariables

open Transition PartitionTable DescriptorPartition

/-! ### `initVariable` -/

/-- `pool_size_`, `partition_count_` and `next_partition_`. -/
structure Variables where
  poolSize : UInt32
  partitionCount : UInt32
  nextPartition : UInt32
  deriving DecidableEq, Repr

/-- The check at the end of `initVariable`. -/
inductive InitError where
  | invalidPoolSize
  deriving DecidableEq, Repr

/-- The loop for the pool: it ends once the size is large enough. -/
def roundPoolSize (requested : UInt32) (fuel : Nat) : Option (Unit × UInt32) :=
  runUntil (fun poolSize => some (poolSize * 2))
    (fun poolSize => if requested ≤ poolSize then some () else none) fuel 1

/-- The loop for the partitions, with the rounds that are left of `exp < 10`. -/
def roundPartitionCount (requested : UInt32) : Nat → UInt32 → UInt32
  | 0, partitionCount => partitionCount
  | rounds + 1, partitionCount =>
    if requested ≤ partitionCount then partitionCount
    else roundPartitionCount requested rounds (partitionCount * 2)

/-- `initVariable` after the constructor has stored what was requested. -/
def initVariable (poolSize partitionCount : UInt32) (fuel : Nat) :
    Option (Except InitError Unit × Variables) :=
  (roundPoolSize poolSize fuel).map fun rounded =>
    let pool : Variables :=
      { poolSize := rounded.2
        partitionCount := roundPartitionCount partitionCount 9 1
        nextPartition := 0 }
    (if 0 < pool.poolSize then .ok () else .error .invalidPoolSize, pool)

/-! ### Powers of two -/

/-- The least power of two that is not below what was requested. -/
def LeastPowerOfTwo (requested size : Nat) : Prop :=
  IsLeast {power | (∃ exponent, power = 2 ^ exponent) ∧ requested ≤ power} size

theorem leastPowerOfTwo_clog (requested : Nat) :
    LeastPowerOfTwo requested (2 ^ Nat.clog 2 requested) := by
  refine ⟨⟨⟨_, rfl⟩, Nat.le_pow_clog (by decide) requested⟩, ?_⟩
  rintro _ ⟨⟨exponent, rfl⟩, enough⟩
  exact Nat.pow_le_pow_right (by decide) (Nat.clog_le_of_le_pow enough)

theorem LeastPowerOfTwo.eq {requested size : Nat} (least : LeastPowerOfTwo requested size) :
    size = 2 ^ Nat.clog 2 requested :=
  least.unique (leastPowerOfTwo_clog requested)

/-- Doubling a power of two below 2^31. -/
theorem toNat_double {number : UInt32} {exponent : Nat} (power : number.toNat = 2 ^ exponent)
    (below : exponent < 31) : (number * 2).toNat = 2 ^ (exponent + 1) := by
  have bound : 2 ^ (exponent + 1) < 2 ^ 32 := Nat.pow_lt_pow_right (by decide) (by omega)
  rw [UInt32.toNat_mul, power]
  exact Nat.mod_eq_of_lt bound

/-- The loop for the pool reaches the first power of two that is large enough. -/
theorem roundPoolSize_yields {requested : UInt32} (bound : requested ≤ 2147483648) :
    ∃ poolSize : UInt32, poolSize.toNat = 2 ^ Nat.clog 2 requested.toNat ∧
      Yields (roundPoolSize requested) () poolSize := by
  have small : Nat.clog 2 requested.toNat ≤ 31 :=
    Nat.clog_le_of_le_pow (UInt32.le_iff_toNat_le.1 bound)
  have reaches : ∀ exponent ≤ Nat.clog 2 requested.toNat, ∃ poolSize : UInt32,
      poolSize.toNat = 2 ^ exponent ∧
      Relation.ReflTransGen (Proceeds (fun poolSize : UInt32 => some (poolSize * 2))
        fun poolSize => if requested ≤ poolSize then some () else none) 1 poolSize := by
    intro exponent
    induction exponent with
    | zero => exact fun _ => ⟨1, rfl, .refl⟩
    | succ exponent inductionHypothesis =>
      intro below
      obtain ⟨poolSize, power, reaches⟩ := inductionHypothesis (Nat.le_of_succ_le below)
      have less : 2 ^ exponent < requested.toNat := Nat.pow_lt_of_lt_clog below
      refine ⟨poolSize * 2, toNat_double power (by omega), reaches.tail ⟨if_neg ?_, rfl⟩⟩
      rw [UInt32.le_iff_toNat_le, power]
      exact Nat.not_le_of_lt less
  obtain ⟨poolSize, power, reached⟩ := reaches _ (Nat.le_refl _)
  refine ⟨poolSize, power, Yields.of_proceeds reached (if_pos ?_)⟩
  rw [UInt32.le_iff_toNat_le, power]
  exact Nat.le_pow_clog (by decide) requested.toNat

/-- Above 2^31 the loop for the pool does not end. -/
theorem roundPoolSize_eq_none {requested : UInt32} (large : 2147483648 < requested) (fuel : Nat) :
    roundPoolSize requested fuel = none := by
  have above : 2 ^ 31 < requested.toNat := UInt32.lt_iff_toNat_lt.1 large
  have small : ∀ poolSize : UInt32, (poolSize = 0 ∨ ∃ exponent ≤ 31, poolSize.toNat = 2 ^ exponent) →
      ¬ requested ≤ poolSize := by
    rintro poolSize (rfl | ⟨exponent, below, power⟩) enough
    · have := UInt32.le_iff_toNat_le.1 enough
      rw [UInt32.toNat_zero] at this
      omega
    · have := UInt32.le_iff_toNat_le.1 enough
      have bound : 2 ^ exponent ≤ 2 ^ 31 := Nat.pow_le_pow_right (by decide) below
      omega
  have never : ∀ poolSize : UInt32, (poolSize = 0 ∨ ∃ exponent ≤ 31, poolSize.toNat = 2 ^ exponent) →
      runUntil (fun poolSize => some (poolSize * 2))
        (fun poolSize => if requested ≤ poolSize then some () else none) fuel poolSize = none := by
    induction fuel with
    | zero =>
      intro poolSize reached
      simp only [runUntil, if_neg (small poolSize reached), Option.map_none]
    | succ fuel inductionHypothesis =>
      intro poolSize reached
      simp only [runUntil, if_neg (small poolSize reached), Option.bind_some]
      refine inductionHypothesis (poolSize * 2) ?_
      rcases reached with rfl | ⟨exponent, below, power⟩
      · exact .inl rfl
      · rcases Nat.lt_or_eq_of_le below with less | rfl
        · exact .inr ⟨exponent + 1, less, toNat_double power less⟩
        · refine .inl (UInt32.toNat_inj.1 ?_)
          rw [UInt32.toNat_mul, power]
          rfl
  exact never 1 (.inr ⟨0, Nat.zero_le 31, rfl⟩)

/-- The loop for the partitions, from a power of two on. -/
theorem roundPartitionCount_toNat (requested : UInt32) (rounds exponent : Nat)
    {partitionCount : UInt32} (power : partitionCount.toNat = 2 ^ exponent)
    (bound : exponent + rounds ≤ 31) :
    (roundPartitionCount requested rounds partitionCount).toNat =
      2 ^ max exponent (min (Nat.clog 2 requested.toNat) (exponent + rounds)) := by
  induction rounds generalizing exponent partitionCount with
  | zero =>
    rw [roundPartitionCount, power]
    congr 1
    omega
  | succ rounds inductionHypothesis =>
    rw [roundPartitionCount]
    have enough : requested ≤ partitionCount ↔ Nat.clog 2 requested.toNat ≤ exponent := by
      rw [UInt32.le_iff_toNat_le, power, Nat.clog_le_iff_le_pow (by decide)]
    split
    · rename_i already
      rw [power]
      congr 1
      have := enough.1 already
      omega
    · rename_i less
      rw [inductionHypothesis (exponent + 1) (toNat_double power (by omega)) (by omega)]
      congr 1
      have small : ¬ Nat.clog 2 requested.toNat ≤ exponent := fun below => less (enough.2 below)
      omega

/-- The sizes are what was requested, rounded up, the number of partitions no higher than 1024. -/
structure Rounded (poolSize partitionCount : UInt32) (pool : Variables) : Prop where
  poolSize : LeastPowerOfTwo poolSize.toNat pool.poolSize.toNat
  partitionCount : ∃ power, LeastPowerOfTwo partitionCount.toNat power ∧
    pool.partitionCount.toNat = min power 1024

/-- What the loop for the partitions ends with. -/
theorem partitionCount_toNat (requested : UInt32) :
    (roundPartitionCount requested 9 1).toNat = 2 ^ min (Nat.clog 2 requested.toNat) 9 := by
  rw [roundPartitionCount_toNat requested 9 0 rfl (by decide), Nat.zero_add, Nat.zero_max]

/-- Nine doublings are enough for 512 partitions. -/
theorem rounded_partitionCount_iff (requested : UInt32) :
    (∃ power, LeastPowerOfTwo requested.toNat power ∧
      (roundPartitionCount requested 9 1).toNat = min power 1024) ↔ requested ≤ 512 := by
  have limit : requested ≤ 512 ↔ Nat.clog 2 requested.toNat ≤ 9 := by
    rw [UInt32.le_iff_toNat_le, Nat.clog_le_iff_le_pow (by decide)]
    rfl
  rw [limit, partitionCount_toNat]
  constructor
  · rintro ⟨power, least, same⟩
    by_contra above
    rw [least.eq, Nat.min_eq_right (by omega)] at same
    have large : 2 ^ 10 ≤ 2 ^ Nat.clog 2 requested.toNat :=
      Nat.pow_le_pow_right (by decide) (by omega)
    exact absurd (same.trans (Nat.min_eq_right large)) (by decide)
  · intro below
    have small : 2 ^ Nat.clog 2 requested.toNat ≤ 2 ^ 10 :=
      Nat.pow_le_pow_right (by decide) (by omega)
    refine ⟨_, leastPowerOfTwo_clog _, ?_⟩
    rw [Nat.min_eq_left below]
    exact (Nat.min_eq_left small).symm

/-! ### The descriptors and the threads -/

/-- The loop of the constructor of `DescriptorPool` that distributes the descriptors. -/
def Variables.distribute (pool : Variables) : Except Fault Distribution :=
  PartitionTable.distribute pool.poolSize.toNat pool.partitionCount.toNat

/-- The partition that `AllocateBaseDescriptor` takes for a new thread. -/
def Variables.takePartition (pool : Variables) : UInt32 × Variables :=
  (pool.nextPartition % pool.partitionCount, { pool with nextPartition := pool.nextPartition + 1 })

/-- The partitions of the next `threads` new threads, in the order of their first allocation. -/
def Variables.takePartitions : Nat → Variables → List UInt32
  | 0, _ => []
  | threads + 1, pool => pool.takePartition.1 :: takePartitions threads pool.takePartition.2

/-- Every partition has the same positive number of descriptors on its free list, every descriptor is on
one free list, and the first `threads` threads get different partitions. -/
structure Serves (pool : Variables) (threads : Nat) : Prop where
  distributed : ∃ state, pool.distribute = .ok state ∧
    Distributed pool.poolSize.toNat pool.partitionCount.toNat state ∧
    ∃ share > 0, ∀ partition < pool.partitionCount.toNat, ∃ list,
      Chain state.nextPtr (state.freeList partition) list ∧ list.length = share
  own : (pool.takePartitions threads).Nodup
  inside : ∀ partition ∈ pool.takePartitions threads, partition < pool.partitionCount

/-- The elements of one partition, all of the same number. -/
theorem length_elements {share partitionCount partition : Nat} (positive : 0 < share)
    (inside : partition < partitionCount) :
    (elements share (share * partitionCount) partition).length = share := by
  induction partitionCount with
  | zero => exact absurd inside (Nat.not_lt_zero partition)
  | succ partitionCount inductionHypothesis =>
    rw [elements, Nat.mul_succ, List.range_add, List.filter_append, List.length_reverse,
      List.length_append]
    have last : ∀ i < share, (share * partitionCount + i) / share = partitionCount := by
      intro i below
      rw [Nat.mul_add_div positive, Nat.div_eq_of_lt below, Nat.add_zero]
    rcases Nat.lt_succ_iff_lt_or_eq.1 inside with earlier | rfl
    · have none_ : ((List.range share).map (share * partitionCount + ·)).filter
          (fun i => i / share = partition) = [] := by
        rw [List.filter_eq_nil_iff]
        intro i member
        obtain ⟨offset, below, rfl⟩ := List.mem_map.1 member
        rw [last offset (List.mem_range.1 below)]
        simp only [decide_eq_true_eq]
        omega
      have before := inductionHypothesis earlier
      rw [elements, List.length_reverse] at before
      rw [none_, before]
      rfl
    · have none_ : (List.range (share * partition)).filter (fun i => i / share = partition) = [] := by
        rw [List.filter_eq_nil_iff]
        intro i member
        have below := (Nat.div_lt_iff_lt_mul positive).2
          (Nat.mul_comm share partition ▸ List.mem_range.1 member)
        simp only [decide_eq_true_eq]
        omega
      have all : ((List.range share).map (share * partition + ·)).filter
          (fun i => i / share = partition) = (List.range share).map (share * partition + ·) := by
        rw [List.filter_eq_self]
        intro i member
        obtain ⟨offset, below, rfl⟩ := List.mem_map.1 member
        exact decide_eq_true (last offset (List.mem_range.1 below))
      rw [none_, all, List.length_map, List.length_range]
      exact Nat.zero_add share

/-- New threads get the partitions one after the other. -/
theorem takePartitions_eq (threads : Nat) (pool : Variables)
    (bound : pool.nextPartition.toNat + threads ≤ pool.partitionCount.toNat) :
    (pool.takePartitions threads).map UInt32.toNat =
      List.range' pool.nextPartition.toNat threads := by
  induction threads generalizing pool with
  | zero => rfl
  | succ threads inductionHypothesis =>
    have limit := pool.partitionCount.toNat_lt
    have next_ : (pool.nextPartition + 1).toNat = pool.nextPartition.toNat + 1 := by
      rw [UInt32.toNat_add]
      exact Nat.mod_eq_of_lt (by simp only [UInt32.toNat_one]; omega)
    have rest := inductionHypothesis pool.takePartition.2
      (by simp only [Variables.takePartition, next_]; omega)
    rw [Variables.takePartitions, List.map_cons, rest, List.range'_succ]
    simp only [Variables.takePartition, next_, UInt32.toNat_mod]
    rw [Nat.mod_eq_of_lt (by omega)]

/-- Sizes that are powers of two, more descriptors than partitions. -/
theorem serves_of_powers {pool : Variables} {large small threads : Nat}
    (poolSize : pool.poolSize.toNat = 2 ^ large) (partitionCount : pool.partitionCount.toNat = 2 ^ small)
    (more : pool.partitionCount < pool.poolSize) (new : pool.nextPartition = 0)
    (enough : threads ≤ pool.partitionCount.toNat) : Serves pool threads := by
  have positive : 0 < pool.partitionCount.toNat := by
    rw [partitionCount]
    exact Nat.two_pow_pos small
  have less : small < large := by
    have := UInt32.lt_iff_toNat_lt.1 more
    rw [poolSize, partitionCount] at this
    exact (Nat.pow_lt_pow_iff_right (by decide)).1 this
  obtain ⟨share, divides⟩ : pool.partitionCount.toNat ∣ pool.poolSize.toNat := by
    rw [poolSize, partitionCount]
    exact Nat.pow_dvd_pow 2 (Nat.le_of_lt less)
  have some_ : 0 < share := by
    refine Nat.pos_of_ne_zero ?_
    rintro rfl
    rw [poolSize, Nat.mul_zero] at divides
    exact absurd divides (Nat.two_pow_pos large).ne'
  have quotient : pool.poolSize.toNat / pool.partitionCount.toNat = share := by
    rw [divides, Nat.mul_div_cancel_left share positive]
  have done := (distribute_eq_ok_iff positive _).2 ⟨Dvd.intro share divides.symm, rfl⟩
  have taken := takePartitions_eq threads pool (by rw [new]; exact (Nat.zero_add threads).trans_le enough)
  refine ⟨⟨_, done, distributed_of_distribute positive done, share, some_, fun partition inside => ?_⟩,
    ?_, fun partition member => ?_⟩
  · refine ⟨_, chain_of_distribute positive done partition, ?_⟩
    rw [quotient, divides, Nat.mul_comm]
    exact length_elements some_ inside
  · refine List.Nodup.of_map UInt32.toNat ?_
    rw [taken]
    exact List.nodup_range'
  · have listed := List.mem_map_of_mem (f := UInt32.toNat) member
    rw [taken, List.mem_range'_1, new] at listed
    rw [UInt32.lt_iff_toNat_lt]
    simp only [UInt32.toNat_zero, Nat.zero_add] at listed
    omega

/-- What `initVariable` leaves when it ends. -/
theorem pool_of_yields {poolSize partitionCount : UInt32} {outcome : Except InitError Unit}
    {pool : Variables} (yields : Yields (initVariable poolSize partitionCount) outcome pool) :
    poolSize ≤ 2147483648 ∧ pool.partitionCount = roundPartitionCount partitionCount 9 1 := by
  obtain ⟨fuel, reached⟩ := yields
  have done := reached fuel (Nat.le_refl fuel)
  rw [initVariable] at done
  constructor
  · by_contra large
    rw [roundPoolSize_eq_none (UInt32.not_le.1 large) fuel] at done
    cases done
  · obtain ⟨rounded, -, same⟩ := Option.map_eq_some_iff.1 done
    rw [Prod.mk.injEq] at same
    rw [← same.2]

/-- `initVariable` ends when the loop for the pool does, and its check passes. -/
theorem initVariable_yields {poolSize rounded : UInt32} (partitionCount : UInt32)
    (yields : Yields (roundPoolSize poolSize) () rounded) (positive : 0 < rounded) :
    Yields (initVariable poolSize partitionCount) (.ok ())
      { poolSize := rounded
        partitionCount := roundPartitionCount partitionCount 9 1
        nextPartition := 0 } := by
  obtain ⟨bound, reached⟩ := yields
  refine ⟨bound, fun fuel enough => ?_⟩
  rw [initVariable, reached fuel enough, Option.map_some]
  simp only [if_pos positive]

/-- `initVariable` ends with the two sizes rounded as its comments say, and the partitions serve that many
threads, exactly if at most 2^31 descriptors and at most 512 partitions are requested. -/
theorem initVariable_rounds_iff (poolSize partitionCount : UInt32) :
    (∃ pool, Yields (initVariable poolSize partitionCount) (.ok ()) pool ∧
      Rounded poolSize partitionCount pool ∧
      (pool.partitionCount < pool.poolSize → Serves pool (min partitionCount.toNat 1024))) ↔
      poolSize ≤ 2147483648 ∧ partitionCount ≤ 512 := by
  constructor
  · rintro ⟨pool, yields, rounded, -⟩
    obtain ⟨bound, partitions⟩ := pool_of_yields yields
    refine ⟨bound, (rounded_partitionCount_iff partitionCount).1 ?_⟩
    rw [← partitions]
    exact rounded.partitionCount
  · rintro ⟨bound, partitions⟩
    obtain ⟨rounded, power, yields⟩ := roundPoolSize_yields bound
    have positive : 0 < rounded := by
      rw [UInt32.lt_iff_toNat_lt, power]
      exact Nat.two_pow_pos _
    have counts := (rounded_partitionCount_iff partitionCount).2 partitions
    refine ⟨_, initVariable_yields partitionCount yields positive, ⟨?_, counts⟩, fun more => ?_⟩
    · rw [power]
      exact leastPowerOfTwo_clog poolSize.toNat
    · refine serves_of_powers power (partitionCount_toNat partitionCount) more rfl ?_
      obtain ⟨count, least, same⟩ := counts
      rw [same]
      exact min_le_min_right 1024 least.1.2

/-- A thousand partitions become 512, and for more than 2^31 descriptors the constructor does not end. -/
theorem exists_not_rounded :
    (¬ ∃ pool, Yields (initVariable 2048 1000) (.ok ()) pool ∧ Rounded 2048 1000 pool) ∧
      ¬ ∃ outcome pool, Yields (initVariable 2147483649 1) outcome pool := by
  constructor
  · rintro ⟨pool, yields, rounded⟩
    obtain ⟨-, partitions⟩ := pool_of_yields yields
    have counts := rounded.partitionCount
    rw [partitions] at counts
    exact absurd ((rounded_partitionCount_iff 1000).1 counts) (by decide)
  · rintro ⟨outcome, pool, yields⟩
    exact absurd (pool_of_yields yields).1 (by decide)

end Pmwcas.PoolVariables
