/-
This file is the data model of `FASASDescriptor`: a descriptor of one shared word and one private
word, and its fields as the code packs them into machine words.

`privateAddress_` carries three flags beside the address: the operation has succeeded
(`StatusFlg`), the private word has been written (`IsPrivateValueSetFlg`), and a dirty flag that is
never set. `opType_` carries three flags too, and for a double-word exchange the value for the
private word.
-/

import Mathlib
import Pmwcas.Word

namespace Pmwcas

/-- `opType_`: the kind of the operation in its three highest bits, and a value in the others. -/
structure OpType where
  recoverCASOp : Bool
  doubleCASOp : Bool
  fasasOp : Bool
  value : Nat
  deriving DecidableEq, Repr

namespace OpType

/-- The value zero. -/
def zero : OpType := ⟨false, false, false, 0⟩

/-- `FASASOp`. -/
def fasas : OpType := ⟨false, false, true, 0⟩

/-- `getDCASValue`: the word without `DoubleCASOp`. The other two flags are bits 63 and 61. -/
def getDCASValue (opType : OpType) : Word where
  mwcas := opType.recoverCASOp
  condcas := false
  dirty := opType.fasasOp
  rest := opType.value

end OpType

/-- `privateAddress_`: an address with the flags in its highest bits. -/
structure PrivateAddress where
  address : Nat
  isPrivateValueSetFlg : Bool
  statusFlg : Bool
  statusDirtyFlg : Bool
  deriving DecidableEq, Repr

namespace PrivateAddress

/-- `nullptr`. -/
def null : PrivateAddress := ⟨0, false, false, false⟩

/-- A plain address. -/
def of (address : Nat) : PrivateAddress := ⟨address, false, false, false⟩

/-- `getPrivateAddress`. -/
def getPrivateAddress (private_ : PrivateAddress) : Nat := private_.address

/-- `isPrivateValueSet`: the masked word, so one of zero and `IsPrivateValueSetFlg`. -/
def isPrivateValueSet (private_ : PrivateAddress) : Nat :=
  if private_.isPrivateValueSetFlg then 2 ^ 61 else 0

/-- `getStatus`: the masked word, so one of zero and `StatusFlg`. -/
def getStatus (private_ : PrivateAddress) : Nat := if private_.statusFlg then 2 ^ 62 else 0

theorem getStatus_ne_one (private_ : PrivateAddress) : private_.getStatus ≠ 1 := by
  unfold getStatus
  split
  · decide
  · decide

theorem isPrivateValueSet_ne_one (private_ : PrivateAddress) : private_.isPrivateValueSet ≠ 1 := by
  unfold isPrivateValueSet
  split
  · decide
  · decide

end PrivateAddress

/-- `SuccStatus`. -/
def succStatus : Nat := 1

/-- `FailedStatus`. -/
def failedStatus : Nat := 0

/-- `FASASDescriptor`, without the links to its partition and in the free list. -/
structure FASASDescriptor where
  address : Nat
  oldValue : Word
  newValue : Word
  opType : OpType
  privateAddress : PrivateAddress
  deriving DecidableEq, Repr

namespace FASASDescriptor

/-- A descriptor after `memset(.., 0, ..)`. -/
def zero : FASASDescriptor :=
  { address := 0, oldValue := .plain 0, newValue := .plain 0, opType := .zero, privateAddress := .null }

/-- A descriptor after the constructor or `Initialize`. -/
def initialized : FASASDescriptor := { zero with opType := .fasas }

/-- What the private word gets when the operation succeeds: by `changePrivateValueSucc`. -/
def privateValue (descriptor : FASASDescriptor) : Word :=
  if descriptor.opType.recoverCASOp then .plain 1
  else if descriptor.opType.doubleCASOp then descriptor.opType.getDCASValue
  else descriptor.oldValue

end FASASDescriptor

/-- `sizeof(FASASDescriptor)`: one cache line. -/
def sizeofFASASDescriptor : Nat := 64

/-- The address of `descriptors_[d]`. -/
def Pool.fasasAddress (pool : Pool) (d : Nat) : Nat := pool.base + sizeofFASASDescriptor * d

/-- `SetFlags(descriptors_ + d, kMwCASFlag)`. -/
def Pool.fasasPtr (pool : Pool) (d : Nat) : Word :=
  { mwcas := true, condcas := false, dirty := false, rest := pool.fasasAddress d }

theorem Pool.fasasAddress_injective (pool : Pool) {d e : Nat}
    (same : pool.fasasAddress d = pool.fasasAddress e) : d = e := by
  simp only [fasasAddress, sizeofFASASDescriptor] at same
  omega

end Pmwcas
