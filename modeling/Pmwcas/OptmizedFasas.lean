/-
This file is the data model of `OptmizedFASASDescriptor`: the shared word with the tag of the
operation that wrote it, and the descriptor that every process has for every location.

A shared word is a 64-bit number,

  |--63 .. 60--|--59 .. 48--|--47 .. 0--|
  |---seq id---|-process id-|---value---|

and the tag tells other processes which descriptor to help and recovery whose operation was the
last one. The process id of a tag is one more than the number of the process, so that a word
nobody has written yet has no tag.
-/

import Pmwcas.Fasas

namespace Pmwcas

/-! ### Tagged words -/

/-- `ActualValueFlg`. -/
def actualValueFlg : Nat := 0xFFFFFFFFFFFF

/-- `ProcessIdFlg`. -/
def processIdFlg : Nat := 0xFFF <<< 48

/-- `SeqIdFlg`. -/
def seqIdFlg : Nat := 0xF <<< 60

/-- `val & ActualValueFlg`. -/
def actualValueOf (val : Nat) : Nat := val &&& actualValueFlg

/-- `(val & ProcessIdFlg) >> 48`. -/
def processIdOf (val : Nat) : Nat := (val &&& processIdFlg) >>> 48

instance neZero_sixteen : NeZero 16 := ⟨by decide⟩

/-- `(val & SeqIdFlg) >> 60`, a number of four bits. -/
def seqIdOf (val : Nat) : Fin 16 := Fin.ofNat 16 ((val &&& seqIdFlg) >>> 60)

/-- The word `addDescriptorToShareVar` swaps in. -/
def taggedValue (processId newShareVarValue : Nat) (seqId : Fin 16) : Nat :=
  (processId <<< 48) ||| newShareVarValue ||| (seqId.val <<< 60)

theorem actualValueOf_eq (val : Nat) : actualValueOf val = val % 2 ^ 48 := by
  rw [actualValueOf, show actualValueFlg = 2 ^ 48 - 1 from rfl, Nat.and_two_pow_sub_one_eq_mod]

theorem processIdOf_eq (val : Nat) : processIdOf val = val / 2 ^ 48 % 2 ^ 12 := by
  rw [processIdOf, Nat.shiftRight_and_distrib,
    show processIdFlg >>> 48 = 2 ^ 12 - 1 from rfl, Nat.and_two_pow_sub_one_eq_mod,
    Nat.shiftRight_eq_div_pow]

theorem seqIdOf_eq (val : Nat) : (seqIdOf val).val = val / 2 ^ 60 % 16 := by
  show (val &&& seqIdFlg) >>> 60 % 16 = _
  rw [Nat.shiftRight_and_distrib, show seqIdFlg >>> 60 = 2 ^ 4 - 1 from rfl,
    Nat.and_two_pow_sub_one_eq_mod, Nat.shiftRight_eq_div_pow]
  exact Nat.mod_mod _ _

theorem taggedValue_eq {processId newShareVarValue : Nat} (small : processId < 2 ^ 12)
    (value : newShareVarValue < 2 ^ 48) (seqId : Fin 16) :
    taggedValue processId newShareVarValue seqId =
      seqId.val * 2 ^ 60 + (processId * 2 ^ 48 + newShareVarValue) := by
  have low : (processId <<< 48) ||| newShareVarValue = processId * 2 ^ 48 + newShareVarValue := by
    rw [← Nat.shiftLeft_add_eq_or_of_lt value, Nat.shiftLeft_eq]
  have bound : processId * 2 ^ 48 + newShareVarValue < 2 ^ 60 := by omega
  rw [taggedValue, low, Nat.or_comm, ← Nat.shiftLeft_add_eq_or_of_lt bound, Nat.shiftLeft_eq]

section TaggedValue

variable {processId newShareVarValue : Nat} (small : processId < 2 ^ 12)
  (value : newShareVarValue < 2 ^ 48) (seqId : Fin 16)

include small value

theorem actualValueOf_taggedValue :
    actualValueOf (taggedValue processId newShareVarValue seqId) = newShareVarValue := by
  rw [actualValueOf_eq, taggedValue_eq small value]
  omega

theorem processIdOf_taggedValue :
    processIdOf (taggedValue processId newShareVarValue seqId) = processId := by
  rw [processIdOf_eq, taggedValue_eq small value]
  omega

theorem seqIdOf_taggedValue :
    seqIdOf (taggedValue processId newShareVarValue seqId) = seqId := by
  apply Fin.ext
  rw [seqIdOf_eq, taggedValue_eq small value]
  have bound := seqId.isLt
  omega

end TaggedValue

theorem processIdOf_eq_zero {val : Nat} (small : val < 2 ^ 48) : processIdOf val = 0 := by
  rw [processIdOf_eq]
  omega

/-! ### Descriptors -/

/-- `statusInfo_`: the sequence number of the attempt in its four highest bits, and the bit
`SuccStatus`. -/
structure StatusInfo where
  seqId : Fin 16
  succ : Bool
  deriving DecidableEq, Repr

/-- The word as a number. -/
def Word.toNat (word : Word) : Nat :=
  word.mwcas.toNat * 2 ^ 63 + word.condcas.toNat * 2 ^ 62 + word.dirty.toNat * 2 ^ 61 + word.rest

/-- What the private word gets from a successful operation of this type on an old value. -/
def OpType.result (opType : OpType) (oldval : Nat) : Nat :=
  if opType.recoverCASOp then 1
  else if opType.doubleCASOp then opType.getDCASValue.toNat
  else oldval

/-- `OptmizedFASASDescriptor`. -/
structure OptmizedFASASDescriptor where
  sharedAddress : Nat
  oldShareVarValue : Nat
  newShareVarValue : Nat
  opType : OpType
  privateAddress : Nat
  processId : Nat
  isPrivateAddrSet : Bool
  isShareVarSet : Bool
  statusInfo : StatusInfo
  deriving DecidableEq, Repr

namespace OptmizedFASASDescriptor

/-- A descriptor after its constructor. -/
def constructed (processId : Nat) : OptmizedFASASDescriptor where
  sharedAddress := 0
  oldShareVarValue := 0
  newShareVarValue := 0
  opType := .fasas
  privateAddress := 0
  processId := processId
  isPrivateAddrSet := false
  isShareVarSet := false
  statusInfo := ⟨0, false⟩

/-- What `changePrivateValueSucc` writes into the private word. -/
def privateValue (descriptor : OptmizedFASASDescriptor) : Nat :=
  descriptor.opType.result descriptor.oldShareVarValue

end OptmizedFASASDescriptor

end Pmwcas
