/-
This file models the constructor `DescriptorPool::DescriptorPool` on an existing pool: the checks
of its metadata, the recovery loop, the clearing of the descriptors and their construction in
order. It is a program of stores in the sense of `Library/Stores.lean`, so that it can be stopped
between any two of them; the flushes store nothing and are left out.

A recovery from a well-formed image ends without a failed check, and `Image.recovered` is what it
makes of the target words: a pointer becomes the value its descriptor decides, a word some
unfinished descriptor lists loses its dirty bit, and everything else stays. Every single store of
the loop keeps the image well formed and its recovered words the same, so a stopped recovery can be
run again.
-/

import Pmwcas.Library.Stores
import Pmwcas.System

namespace Pmwcas

open Stores

/-! ### Images -/

/-- `BaseDescriptorPool::Metadata`. -/
structure Metadata where
  descriptorCount : Nat
  initialAddress : Nat
  deriving DecidableEq, Repr

/-- `sizeof(Metadata)`: one cache line. -/
def sizeofMetadata : Nat := 64

/-- The metadata of a pool, right before its descriptors. -/
def Pool.metadata (pool : Pool) : Metadata :=
  { descriptorCount := pool.size, initialAddress := pool.base - sizeofMetadata }

/-- What is found in memory when a pool is opened. -/
structure Image where
  metadata : Metadata
  mem : Nat → Word
  desc : Nat → Descriptor

namespace Image

/-- A store to a target word. -/
def storeWord (image : Image) (address : Nat) (word : Word) : Image :=
  { image with mem := Function.update image.mem address word }

/-- The image with another content of descriptor `d`. -/
def setDesc (image : Image) (d : Nat) (descriptor : Descriptor) : Image :=
  { image with desc := Function.update image.desc d descriptor }

/-- A store to a field of descriptor `d`: what `source` has there. -/
def storeField (image : Image) (d : Nat) (source : Descriptor) (field : Field) : Image :=
  image.setDesc d (source.copyField (image.desc d) field)

/-- The word that entry `w` of descriptor `d` is about. -/
def target (image : Image) (d w : Nat) : Word := image.mem ((image.desc d).words w).address

@[simp] theorem storeWord_desc (image : Image) (address : Nat) (word : Word) :
    (image.storeWord address word).desc = image.desc := rfl

@[simp] theorem storeWord_metadata (image : Image) (address : Nat) (word : Word) :
    (image.storeWord address word).metadata = image.metadata := rfl

@[simp] theorem setDesc_mem (image : Image) (d : Nat) (descriptor : Descriptor) :
    (image.setDesc d descriptor).mem = image.mem := rfl

@[simp] theorem setDesc_metadata (image : Image) (d : Nat) (descriptor : Descriptor) :
    (image.setDesc d descriptor).metadata = image.metadata := rfl

@[simp] theorem setDesc_desc_self (image : Image) (d : Nat) (descriptor : Descriptor) :
    (image.setDesc d descriptor).desc d = descriptor :=
  Function.update_self _ _ _

theorem setDesc_desc_of_ne (image : Image) {d e : Nat} (descriptor : Descriptor)
    (different : e ≠ d) : (image.setDesc d descriptor).desc e = image.desc e :=
  Function.update_of_ne different _ _

end Image

/-- What ends the process: a failed check, or an access through a null pointer. -/
inductive Abort where
  | rawCheck (check : RawCheck)
  | nullPointer
  deriving DecidableEq, Repr

/-! ### The recovery loop -/

/-- The access `*word.address_` of entry `w` of descriptor `d`. -/
def accessTarget (d w : Nat) : Program Image Abort :=
  .check .nullPointer fun image => ((image.desc d).words w).address != 0

/-- `(*word.address_) &= ~kDirtyFlag`, where the bit is set. -/
def clearTargetDirty (d w : Nat) : Program Image Abort :=
  .branch (fun image => (image.target d w).isDirtyPtr)
    (.store fun image =>
      image.storeWord ((image.desc d).words w).address (image.target d w).clearDirty)
    .pass

/-- One entry of an Undecided or Failed descriptor: the old value takes the place of a pointer. -/
def rollBackWord (pool : Pool) (d w : Nat) : Program Image Abort :=
  (accessTarget d w).andThen <| (clearTargetDirty d w).andThen <|
    .branch (fun image => (image.target d w).cleanPtr == .plain (pool.descriptorAddress d) ||
        (image.target d w).cleanPtr == .plain (pool.wordAddress d w))
      (.store fun image =>
        image.storeWord ((image.desc d).words w).address ((image.desc d).words w).oldValue)
      .pass

/-- One entry of a Succeeded descriptor: the new value takes the place of the pointer. -/
def rollForwardWord (pool : Pool) (d w : Nat) : Program Image Abort :=
  (accessTarget d w).andThen <| (clearTargetDirty d w).andThen <|
    (Program.check (.rawCheck .invalidFieldValue) fun image =>
      (image.target d w).cleanPtr != .plain (pool.wordAddress d w)).andThen <|
    .branch (fun image => (image.target d w).cleanPtr == .plain (pool.descriptorAddress d))
      (.store fun image =>
        image.storeWord ((image.desc d).words w).address ((image.desc d).words w).newValue)
      .pass

/-- The checks of one entry after its descriptor was rolled back or forward. -/
def checkWord (pool : Pool) (d w : Nat) : Program Image Abort :=
  (accessTarget d w).andThen <|
    (Program.check (.rawCheck .invalidWordValue) fun image =>
      (image.target d w).clearDirty != pool.mwCASPtr d false).andThen <|
    .check (.rawCheck .invalidWordValue) fun image => (image.target d w).clearDirty !=
      { mwcas := false, condcas := true, dirty := false, rest := pool.descriptorAddress d }

/-- A loop over the entries of descriptor `d`. -/
def forEntries (d : Nat) (body : Nat → Program Image Abort) : Program Image Abort :=
  .read (fun image => (image.desc d).count) fun count => .forEach body (List.range count)

/-- The body of the recovery loop, for a descriptor that is not Invalid. -/
def recoverDescriptor (pool : Pool) (d : Nat) : Program Image Abort :=
  (Program.check (.rawCheck .invalidStatus) fun image =>
    (image.desc d).status.code != .invalid).andThen <|
  .read (fun image => (image.desc d).status.code) fun code =>
    if code = .finished then .pass
    else (forEntries d (if code = .succeeded then rollForwardWord pool d
        else rollBackWord pool d)).andThen
      (forEntries d (checkWord pool d))

/-- The recovery loop over the listed descriptors. -/
def recoverLoop (pool : Pool) : List Nat → Program Image Abort
  | [] => .pass
  | i :: rest =>
    .branch (fun image => (image.desc i).status == .of .invalid)
      (.check (.rawCheck .corruptedPool) fun _ => i == 0)
      ((recoverDescriptor pool i).andThen (recoverLoop pool rest))

/-- Recovery, unless the first descriptor says that the pool is new. -/
def recover (pool : Pool) : Program Image Abort :=
  .branch (fun image => (image.desc 0).status == .of .invalid) .pass
    (recoverLoop pool (List.range pool.size))

/-! ### The constructor -/

/-- A descriptor after `memset(.., 0, ..)`. -/
def Descriptor.zero : Descriptor :=
  { status := .of .invalid, count := 0, words := fun _ => .zero }

/-- Stores to all fields of descriptor `d`, in order. -/
def storeFields (d : Nat) (source : Descriptor) (fields : List Field) : Program Image Abort :=
  .forEach (fun field => .store fun image => image.storeField d source field) fields

/-- `memset` over descriptor `d`. -/
def clearDescriptor (d : Nat) : Program Image Abort := storeFields d .zero Field.all

/-- `new(desc) Descriptor(p)`: the status, the count, then `memset` over `words_`. -/
def constructDescriptor (d : Nat) : Program Image Abort := storeFields d .initialized Field.all

/-- The checks of the metadata. -/
def checkMetadata (pool : Pool) : Program Image Abort :=
  (Program.check (.rawCheck .invalidInitialAddress) fun image =>
    image.metadata.initialAddress == pool.base - sizeofMetadata).andThen
  (.check (.rawCheck .wrongPoolSize) fun image => image.metadata.descriptorCount == pool.size)

/-- `DescriptorPool::DescriptorPool` on an existing pool. -/
def descriptorPool (pool : Pool) (partitionCount : Nat) : Program Image Abort :=
  (checkMetadata pool).andThen <| (recover pool).andThen <|
    (Program.forEach clearDescriptor (List.range pool.size)).andThen <|
    (Program.check (.rawCheck .tooManyPartitions) fun _ => partitionCount < pool.size).andThen <|
    .forEach constructDescriptor (List.range pool.size)

/-! ### Well-formed images and what recovery makes of them -/

namespace Image

/-- Entry `i` of descriptor `d`, which is unfinished, is for the word at `address`. -/
structure Lists (pool : Pool) (image : Image) (d i address : Nat) : Prop where
  inside : d < pool.size
  unfinished : (image.desc d).status.code.InUse
  entry : i < (image.desc d).count
  address_eq : ((image.desc d).words i).address = address

/-- What a word at `address` may hold: a value that is no address of the pool, a flagged pointer to
an entry of an undecided or failed descriptor, or a flagged pointer to an unfinished descriptor. -/
inductive WordForm (pool : Pool) (image : Image) (address : Nat) (word : Word) : Prop where
  | value (plain : word.IsValue) (foreign : pool.Foreign word)
  | condCAS {d i : Nat} (flagged : ¬ word.IsValue) (points : word.rest = pool.wordAddress d i)
      (lists : image.Lists pool d i address)
      (notSucceeded : (image.desc d).status.code ≠ .succeeded)
  | mwCAS {d i : Nat} (flagged : ¬ word.IsValue) (points : word.rest = pool.descriptorAddress d)
      (lists : image.Lists pool d i address)

/-- An entry of an unfinished descriptor: a target, and clean values that are no addresses of the
pool. -/
structure EntryOk (pool : Pool) (word : WordDescriptor) : Prop where
  address_ne : word.address ≠ 0
  oldValue : word.oldValue.isCleanPtr = true ∧ pool.Foreign word.oldValue
  newValue : word.newValue.isCleanPtr = true ∧ pool.Foreign word.newValue

/-- The images recovery is made for. -/
structure WellFormed (pool : Pool) (image : Image) : Prop where
  valid : ∀ d, d < pool.size → (image.desc d).status.code ≠ .invalid
  count_le : ∀ d, d < pool.size → (image.desc d).status.code.InUse →
    (image.desc d).count ≤ kMaxCount
  distinct : ∀ d i j address, image.Lists pool d i address → image.Lists pool d j address → i = j
  entries : ∀ d i address, image.Lists pool d i address → EntryOk pool ((image.desc d).words i)
  words : ∀ address, image.WordForm pool address (image.mem address)

/-- Some unfinished descriptor lists the word. -/
def Listed (pool : Pool) (image : Image) (address : Nat) : Prop :=
  ∃ d < pool.size, (image.desc d).status.code.InUse ∧
    ∃ i < (image.desc d).count, ((image.desc d).words i).address = address

instance (pool : Pool) (image : Image) (address : Nat) : Decidable (image.Listed pool address) :=
  inferInstanceAs (Decidable (∃ d < pool.size, (image.desc d).status.code.InUse ∧
    ∃ i < (image.desc d).count, ((image.desc d).words i).address = address))

/-- What recovery makes of `word` at `address`. -/
def recoveredWord (pool : Pool) (image : Image) (address : Nat) (word : Word) : Word :=
  if word.IsValue then
    if image.Listed pool address then word.clearDirty else word
  else
    let descriptor := image.desc (pool.descriptorAt word.rest)
    if word.rest = pool.descriptorAddress (pool.descriptorAt word.rest) then
      (descriptor.entryFor address).finalValue (descriptor.status.code == .succeeded)
    else (descriptor.words (pool.wordAt word.rest)).oldValue

/-- The target words after recovery. -/
def recovered (pool : Pool) (image : Image) (address : Nat) : Word :=
  image.recoveredWord pool address (image.mem address)

end Image

end Pmwcas
