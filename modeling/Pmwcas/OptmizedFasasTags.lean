/-
This file is about the numbers of `OptmizedFASASDescriptorPool` at their full width: the descriptor
index is computed in 32 bits although it is kept in 64, the process ids are 16 bits wide in the
descriptors and 12 in a tag, and the pool size, the number of threads and the location are any
`uint32_t`. It says for which of them `getDescriptor` finds the descriptor of a process for a location,
and the tag that descriptor puts into a shared word leads back to it.
-/

import Pmwcas.OptmizedFasas

namespace Pmwcas

/-- What a new pool is made from. -/
structure OptmizedPool where
  poolSize : UInt32
  maximumThreadNum : UInt32

namespace OptmizedPool

variable (pool : OptmizedPool)

/-- The variable `processId` of `createNewDescriptor` at descriptor `i`, an `uint16_t`: the sum and the
remainder are computed in more bits. -/
def loopProcessId : Nat → UInt16
  | 0 => 0
  | i + 1 => UInt16.ofNat (((loopProcessId i).toNat + 1) % pool.maximumThreadNum.toNat)

/-- `processId_` of descriptor `i` after `createNewDescriptor`. -/
def processIdAt (i : Nat) : UInt16 := UInt16.ofNat ((pool.loopProcessId i).toNat + 1)

/-- `getDescriptor`: a failed check, the null pointer, or the descriptor at an index. The product and
the sum are computed as `uint32_t`. -/
def getDescriptor (processId : UInt16) (locationId : UInt32) : Except String (Option Nat) :=
  if processId.toNat < pool.maximumThreadNum.toNat then
    let offset := (pool.maximumThreadNum * locationId + processId.toUInt32).toUInt64
    if offset ≥ pool.poolSize.toUInt64 then .ok none
    else if (pool.processIdAt offset.toNat).toNat = processId.toNat + 1 then .ok (some offset.toNat)
    else .error "corrupted descriptor pool/data area"
  else .error "processId not right "

/-- The index of a descriptor over the natural numbers. -/
def index (processId : UInt16) (locationId : UInt32) : Nat :=
  pool.maximumThreadNum.toNat * locationId.toNat + processId.toNat

/-- The word `addDescriptorToShareVar` swaps in for descriptor `i`. -/
def sharedWord (i newval : Nat) (seqId : Fin 16) : Nat :=
  taggedValue (pool.processIdAt i).toNat newval seqId

/-- `getDescriptor` finds the descriptor at the index if there is one, and the word that is installed
for it leads a helper and recovery to it. -/
structure Identifies (processId : UInt16) (locationId : UInt32) (newval : Nat) (seqId : Fin 16) :
    Prop where
  null_iff : pool.getDescriptor processId locationId = .ok none ↔
    pool.poolSize.toNat ≤ pool.index processId locationId
  found : pool.index processId locationId < pool.poolSize.toNat →
    pool.getDescriptor processId locationId = .ok (some (pool.index processId locationId)) ∧
      processIdOf (pool.sharedWord (pool.index processId locationId) newval seqId) =
        processId.toNat + 1 ∧
      seqIdOf (pool.sharedWord (pool.index processId locationId) newval seqId) = seqId ∧
      actualValueOf (pool.sharedWord (pool.index processId locationId) newval seqId) = newval ∧
      pool.getDescriptor
        (UInt16.ofNat (processIdOf (pool.sharedWord (pool.index processId locationId) newval seqId) - 1))
          locationId = .ok (some (pool.index processId locationId)) ∧
      processIdOf (pool.sharedWord (pool.index processId locationId) newval seqId) =
        (pool.processIdAt (pool.index processId locationId)).toNat

/-- The descriptor lies in the pool, its process id fits a tag and the ids of the pool are those of its
processes; or it lies outside, also after the index has been cut to 32 bits. -/
def Fitting (processId : UInt16) (locationId : UInt32) : Prop :=
  if pool.index processId locationId < pool.poolSize.toNat then
    processId.toNat < 4095 ∧ (pool.maximumThreadNum.toNat ≤ 65536 ∨
      65536 ∣ pool.maximumThreadNum.toNat * locationId.toNat)
  else pool.poolSize.toNat ≤ pool.index processId locationId % 4294967296

/-! ### The ids of a new pool -/

/-- The ids go round after `maximumThreadNum` descriptors, but never later than after 65536. -/
theorem loopProcessId_toNat (some : 0 < pool.maximumThreadNum.toNat) (i : Nat) :
    (pool.loopProcessId i).toNat = i % min pool.maximumThreadNum.toNat 65536 := by
  induction i with
  | zero => rw [loopProcessId, Nat.zero_mod]; rfl
  | succ i inductionHypothesis =>
    rw [loopProcessId, UInt16.toNat_ofNat', inductionHypothesis]
    rcases Nat.le_total pool.maximumThreadNum.toNat 65536 with few | many
    · have bound := Nat.mod_lt (i + 1) some
      rw [Nat.min_eq_left few, Nat.mod_add_mod]
      exact Nat.mod_eq_of_lt (by omega)
    · rw [Nat.min_eq_right many]
      rcases Nat.lt_or_eq_of_le many with more | exact_
      · have bound : i % 65536 < 65536 := Nat.mod_lt i (by decide)
        rw [Nat.mod_eq_of_lt (show i % 65536 + 1 < pool.maximumThreadNum.toNat by omega)]
        exact Nat.mod_add_mod i 65536 1
      · rw [← exact_, Nat.mod_mod, Nat.mod_add_mod]

variable {pool} {processId : UInt16} {locationId : UInt32}

/-- When the descriptor at the index of a process and a location has the id of the process. -/
theorem processIdAt_index (inside : processId.toNat < pool.maximumThreadNum.toNat) :
    (pool.processIdAt (pool.index processId locationId)).toNat = processId.toNat + 1 ↔
      processId.toNat < 65535 ∧ (pool.maximumThreadNum.toNat ≤ 65536 ∨
        65536 ∣ pool.maximumThreadNum.toNat * locationId.toNat) := by
  have id := processId.toNat_lt
  rw [processIdAt, UInt16.toNat_ofNat', loopProcessId_toNat pool (Nat.zero_lt_of_lt inside), index]
  rcases Nat.lt_or_ge 65536 pool.maximumThreadNum.toNat with many | few
  · rw [Nat.min_eq_right (Nat.le_of_lt many)]
    generalize pool.maximumThreadNum.toNat * locationId.toNat = start
    omega
  · rw [Nat.min_eq_left few, Nat.mul_add_mod, Nat.mod_eq_of_lt inside]
    omega

/-! ### Where a descriptor is looked for -/

theorem offset_toNat : (pool.maximumThreadNum * locationId + processId.toUInt32).toUInt64.toNat =
    pool.index processId locationId % 4294967296 := by
  rw [UInt32.toNat_toUInt64, UInt32.toNat_add, UInt32.toNat_mul, UInt16.toNat_toUInt32]
  exact Nat.mod_add_mod _ _ _

theorem getDescriptor_eq (inside : processId.toNat < pool.maximumThreadNum.toNat) :
    pool.getDescriptor processId locationId =
      if pool.poolSize.toNat ≤ pool.index processId locationId % 4294967296 then .ok none
      else if (pool.processIdAt (pool.index processId locationId % 4294967296)).toNat =
          processId.toNat + 1 then
        .ok (some (pool.index processId locationId % 4294967296))
      else .error "corrupted descriptor pool/data area" := by
  have compared : ((pool.maximumThreadNum * locationId + processId.toUInt32).toUInt64 ≥
      pool.poolSize.toUInt64) = (pool.poolSize.toNat ≤
        pool.index processId locationId % 4294967296) := by
    rw [ge_iff_le, UInt64.le_iff_toNat_le, offset_toNat, UInt32.toNat_toUInt64]
  simp only [getDescriptor, if_pos inside, compared, offset_toNat]

/-- Inside the pool nothing is cut off. -/
theorem index_mod (below : pool.index processId locationId < pool.poolSize.toNat) :
    pool.index processId locationId % 4294967296 = pool.index processId locationId :=
  Nat.mod_eq_of_lt (Nat.lt_trans below pool.poolSize.toNat_lt)

theorem getDescriptor_inside (inside : processId.toNat < pool.maximumThreadNum.toNat)
    (below : pool.index processId locationId < pool.poolSize.toNat) :
    pool.getDescriptor processId locationId =
      if (pool.processIdAt (pool.index processId locationId)).toNat = processId.toNat + 1 then
        .ok (some (pool.index processId locationId))
      else .error "corrupted descriptor pool/data area" := by
  rw [getDescriptor_eq inside, index_mod below, if_neg (Nat.not_le.2 below)]

/-- The pairs of a process and a location have different indices. -/
theorem index_injective {otherProcess : UInt16} {otherLocation : UInt32}
    (inside : processId.toNat < pool.maximumThreadNum.toNat)
    (otherInside : otherProcess.toNat < pool.maximumThreadNum.toNat)
    (same : pool.index processId locationId = pool.index otherProcess otherLocation) :
    processId = otherProcess ∧ locationId = otherLocation := by
  have some := Nat.zero_lt_of_lt inside
  have processes := congrArg (· % pool.maximumThreadNum.toNat) same
  have locations := congrArg (· / pool.maximumThreadNum.toNat) same
  simp only [index, Nat.mul_add_mod, Nat.mod_eq_of_lt inside, Nat.mod_eq_of_lt otherInside,
    Nat.mul_add_div some, Nat.div_eq_of_lt inside, Nat.div_eq_of_lt otherInside,
    Nat.add_zero] at processes locations
  exact ⟨UInt16.toNat_inj.1 processes, UInt32.toNat_inj.1 locations⟩

/-! ### Tags -/

variable {newval : Nat} {seqId : Fin 16}

theorem Identifies.fitting (inside : processId.toNat < pool.maximumThreadNum.toNat)
    (identifies : pool.Identifies processId locationId newval seqId) :
    pool.Fitting processId locationId := by
  unfold Fitting
  split
  · rename_i below
    obtain ⟨found, tag, -⟩ := identifies.found below
    have id : (pool.processIdAt (pool.index processId locationId)).toNat = processId.toNat + 1 := by
      rw [getDescriptor_inside inside below] at found
      by_contra different
      rw [if_neg different] at found
      cases found
    have narrow : processIdOf (pool.sharedWord (pool.index processId locationId) newval seqId) < 2 ^ 12 := by
      rw [processIdOf_eq]
      exact Nat.mod_lt _ (by decide)
    exact ⟨by omega, ((processIdAt_index inside).1 id).2⟩
  · rename_i beyond
    have null := identifies.null_iff.2 (Nat.not_lt.1 beyond)
    rw [getDescriptor_eq inside] at null
    by_contra wrapped
    rw [if_neg wrapped] at null
    split at null
    · cases null
    · cases null

theorem Fitting.identifies (inside : processId.toNat < pool.maximumThreadNum.toNat)
    (value : newval < 2 ^ 48) (fitting : pool.Fitting processId locationId) :
    pool.Identifies processId locationId newval seqId := by
  unfold Fitting at fitting
  split at fitting
  · rename_i below
    obtain ⟨narrow, regular⟩ := fitting
    have id : (pool.processIdAt (pool.index processId locationId)).toNat = processId.toNat + 1 :=
      (processIdAt_index inside).2 ⟨by omega, regular⟩
    have found : pool.getDescriptor processId locationId =
        .ok (some (pool.index processId locationId)) := by
      rw [getDescriptor_inside inside below, if_pos id]
    have small : processId.toNat + 1 < 2 ^ 12 := by omega
    have tag : processIdOf (pool.sharedWord (pool.index processId locationId) newval seqId) =
        processId.toNat + 1 := by
      rw [sharedWord, id, processIdOf_taggedValue small value]
    refine ⟨iff_of_false ?_ (Nat.not_le.2 below), fun _ => ⟨found, tag, ?_, ?_, ?_, ?_⟩⟩
    · rw [found]
      intro impossible
      cases impossible
    · rw [sharedWord, id, seqIdOf_taggedValue small value]
    · rw [sharedWord, id, actualValueOf_taggedValue small value]
    · rw [tag, Nat.add_sub_cancel, UInt16.ofNat_toNat]
      exact found
    · rw [tag, id]
  · rename_i beyond
    refine ⟨iff_of_true ?_ (Nat.not_lt.1 beyond), fun below => absurd below beyond⟩
    rw [getDescriptor_eq inside, if_pos fitting]

/-- `getDescriptor` and the tags identify descriptors exactly for the processes and locations that fit,
and these never share a descriptor. -/
theorem identifies_iff (inside : processId.toNat < pool.maximumThreadNum.toNat)
    (value : newval < 2 ^ 48) :
    (pool.Identifies processId locationId newval seqId ↔ pool.Fitting processId locationId) ∧
      ∀ (otherProcess : UInt16) (otherLocation : UInt32) (d : Nat),
        otherProcess.toNat < pool.maximumThreadNum.toNat → pool.Fitting processId locationId →
        pool.Fitting otherProcess otherLocation →
        pool.getDescriptor processId locationId = .ok (some d) →
        pool.getDescriptor otherProcess otherLocation = .ok (some d) →
          processId = otherProcess ∧ locationId = otherLocation := by
  have place : ∀ {p : UInt16} {l : UInt32} {d : Nat}, p.toNat < pool.maximumThreadNum.toNat →
      pool.Fitting p l → pool.getDescriptor p l = .ok (some d) → pool.index p l = d := by
    intro p l d inside fitting found
    have identifies : pool.Identifies p l newval seqId := fitting.identifies inside value
    by_cases below : pool.index p l < pool.poolSize.toNat
    · rw [(identifies.found below).1] at found
      cases found
      rfl
    · rw [identifies.null_iff.2 (Nat.not_lt.1 below)] at found
      cases found
  refine ⟨⟨fun identifies => identifies.fitting inside, fun fitting => fitting.identifies inside value⟩, ?_⟩
  intro otherProcess otherLocation d otherInside fitting otherFitting found otherFound
  refine index_injective inside otherInside ?_
  rw [place inside fitting found, place otherInside otherFitting otherFound]

/-- Two processes and room for two locations. -/
def two : OptmizedPool := { poolSize := 4, maximumThreadNum := 2 }

theorem identifies_iff_two :
    ((1 : UInt16).toNat < two.maximumThreadNum.toNat ∧ two.Fitting 1 1) ∧
      two.Identifies 1 1 7 3 := by
  have fitting : two.Fitting 1 1 := by
    unfold Fitting
    decide
  exact ⟨⟨by decide, fitting⟩, (identifies_iff (by decide) (by decide)).1.2 fitting⟩

/-- The index of process 0 at location 2147483648 is cut to 0: the descriptor of location 0 is found,
although there is none for this location. -/
theorem exists_not_identifies :
    ∃ (pool : OptmizedPool) (processId : UInt16) (locationId otherLocation : UInt32) (d : Nat),
      processId.toNat < pool.maximumThreadNum.toNat ∧ locationId ≠ otherLocation ∧
        pool.poolSize.toNat ≤ pool.index processId locationId ∧
        pool.getDescriptor processId locationId = .ok (some d) ∧
        pool.getDescriptor processId otherLocation = .ok (some d) ∧
        ¬ pool.Identifies processId locationId 7 3 := by
  have found : two.getDescriptor 0 2147483648 = .ok (some 0) := by decide
  have beyond : two.poolSize.toNat ≤ two.index 0 2147483648 := by decide
  refine ⟨two, 0, 2147483648, 0, 0, by decide, by decide, beyond, found, by decide, ?_⟩
  intro identifies
  have null := identifies.null_iff.2 beyond
  rw [found] at null
  cases null

end OptmizedPool

end Pmwcas
