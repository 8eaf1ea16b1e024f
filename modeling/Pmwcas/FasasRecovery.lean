/-
This file models the constructor `FASASDescriptorPool::FASASDescriptorPool` on an existing pool: the
checks of its metadata, `recover`, the clearing of the descriptors and their construction in order,
as a program of stores. `memset` writes the fields of a descriptor in the order of their addresses.
-/

import Pmwcas.Fasas
import Pmwcas.Library.Restart
import Pmwcas.Recovery

namespace Pmwcas

open Stores

/-! ### Images -/

/-- What is found in memory when a pool of FASAS descriptors is opened. -/
structure FASASImage where
  metadata : Metadata
  mem : Nat → Word
  desc : Nat → FASASDescriptor

/-- The separately written fields of a descriptor. -/
inductive FASASField where
  | address
  | oldValue
  | newValue
  | opType
  | privateAddress
  deriving DecidableEq, Repr

/-- `target` with one field taken from `source`. -/
def FASASDescriptor.copyField (source target : FASASDescriptor) : FASASField → FASASDescriptor
  | .address => { target with address := source.address }
  | .oldValue => { target with oldValue := source.oldValue }
  | .newValue => { target with newValue := source.newValue }
  | .opType => { target with opType := source.opType }
  | .privateAddress => { target with privateAddress := source.privateAddress }

/-- `target` with the listed fields taken from `source`. -/
def FASASDescriptor.copyFields (source : FASASDescriptor) (fields : List FASASField)
    (target : FASASDescriptor) : FASASDescriptor :=
  fields.foldl source.copyField target

namespace FASASImage

/-- A store to a user word. -/
def storeWord (image : FASASImage) (address : Nat) (word : Word) : FASASImage :=
  { image with mem := Function.update image.mem address word }

/-- A store to a field of descriptor `d`: what `source` has there. -/
def storeField (image : FASASImage) (d : Nat) (source : FASASDescriptor) (field : FASASField) :
    FASASImage :=
  { image with desc := Function.update image.desc d (source.copyField (image.desc d) field) }

/-- The shared word of descriptor `d`. -/
def target (image : FASASImage) (d : Nat) : Word := image.mem (image.desc d).address

end FASASImage

/-! ### Recovery -/

/-- `doRecoverPrivateAddrSucc`; for an operation type without a flag it stores nothing, but it
reads the word. -/
def doRecoverPrivateAddrSucc (d : Nat) : Program FASASImage Abort :=
  (Program.check .nullPointer fun image =>
    (image.desc d).privateAddress.getPrivateAddress != 0).andThen <|
  .branch (fun image => (image.desc d).opType.recoverCASOp || (image.desc d).opType.doubleCASOp ||
      (image.desc d).opType.fasasOp)
    (.store fun image =>
      image.storeWord (image.desc d).privateAddress.getPrivateAddress (image.desc d).privateValue)
    .pass

/-- `doRecoverShareAddrSucc`. -/
def doRecoverShareAddrSucc (d : Nat) : Program FASASImage Abort :=
  .store fun image => image.storeWord (image.desc d).address (image.desc d).newValue

/-- `doRecoverShareAddrFail`. -/
def doRecoverShareAddrFail (d : Nat) : Program FASASImage Abort :=
  .store fun image => image.storeWord (image.desc d).address (image.desc d).oldValue

/-- `recoverForFASAS` with the value of the shared word and the status it was called with. -/
def recoverForFASAS (pool : Pool) (d status : Nat) (val : Word) : Program FASASImage Abort :=
  if status = succStatus then
    (Program.branch (fun image => (image.desc d).privateAddress.isPrivateValueSet == 0)
      (doRecoverPrivateAddrSucc d) .pass).andThen
    (if val = .plain (pool.fasasAddress d) then doRecoverShareAddrSucc d else .pass)
  else if status = failedStatus ∧ val = .plain (pool.fasasAddress d) then doRecoverShareAddrFail d
  else .pass

/-- The body of the loop of `FASASDescriptorPool::recover`, after the check of `opType_`. -/
def recoverFASASDescriptor (pool : Pool) (d : Nat) : Program FASASImage Abort :=
  .branch (fun image => (image.desc d).privateAddress == .null) .pass <|
    (Program.check .nullPointer fun image => (image.desc d).address != 0).andThen <|
    .read (fun image => ((image.desc d).privateAddress.getStatus, (image.target d).cleanPtr))
      fun values => recoverForFASAS pool d values.1 values.2

/-- The loop of `FASASDescriptorPool::recover` over the listed descriptors. -/
def recoverFASASLoop (pool : Pool) : List Nat → Program FASASImage Abort
  | [] => .pass
  | i :: rest =>
    .branch (fun image => (image.desc i).opType == .zero)
      (.check (.rawCheck .corruptedPool) fun _ => i == 0)
      ((recoverFASASDescriptor pool i).andThen (recoverFASASLoop pool rest))

/-- Recovery, unless the first descriptor says that the pool is new. -/
def recoverFASAS (pool : Pool) : Program FASASImage Abort :=
  .branch (fun image => (image.desc 0).opType == .zero) .pass
    (recoverFASASLoop pool (List.range pool.size))

/-! ### The constructor -/

/-- The fields in the order of their addresses, as `memset` clears them. -/
def FASASField.all : List FASASField := [.address, .oldValue, .newValue, .opType, .privateAddress]

/-- The fields in the order in which the constructor of `FASASDescriptor` writes them:
`privateAddress_` twice, `opType_`, and `memset` over `word_`. -/
def FASASField.constructed : List FASASField :=
  [.privateAddress, .privateAddress, .opType, .address, .oldValue, .newValue]

/-- The stores of `source` to the listed fields of the descriptors, one descriptor after the
other. -/
def storeAllFASAS (pool : Pool) (source : FASASDescriptor) (fields : List FASASField) :
    Program FASASImage Abort :=
  .fill (fun d field image => image.storeField d source field) fields pool.size

/-- The checks of the metadata. -/
def checkFASASMetadata (pool : Pool) : Program FASASImage Abort :=
  (Program.check (.rawCheck .invalidInitialAddress) fun image =>
    image.metadata.initialAddress == pool.base - sizeofMetadata).andThen
  (.check (.rawCheck .wrongPoolSize) fun image => image.metadata.descriptorCount == pool.size)

/-- `FASASDescriptorPool::FASASDescriptorPool`. -/
def fasasDescriptorPool (pool : Pool) (partitionCount : Nat) : Program FASASImage Abort :=
  (checkFASASMetadata pool).andThen <| (recoverFASAS pool).andThen <|
    (storeAllFASAS pool .zero FASASField.all).andThen <|
    (Program.check (.rawCheck .tooManyPartitions) fun _ => partitionCount < pool.size).andThen <|
    storeAllFASAS pool .initialized FASASField.constructed

end Pmwcas
