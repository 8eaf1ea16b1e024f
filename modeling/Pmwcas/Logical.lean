/-
This file defines the logical value of a target word: what a reader who resolves the pointers in it
would see. It is the abstract state of the system, a plain map from addresses to values, and the
operations are meant to act on it atomically.
-/

import Pmwcas.Invariant

namespace Pmwcas

variable {build : Build} {pool : Pool}

/-- The logical value of the word at `address`: its plain value with the dirty bit masked, the old
value of the word descriptor a CondCAS pointer leads to, and for an MwCAS pointer the new or the old
value of the descriptor's entry, as its status says. -/
def Shared.logical (pool : Pool) (shared : Shared) (address : Nat) : Word :=
  let word := shared.mem address
  if word.isCondCASDescriptorPtr then (shared.wordDescriptor pool word).oldValue
  else if word.isMwCASDescriptorPtr then
    let descriptor := shared.desc (pool.descriptorAt word.rest)
    (descriptor.entryFor address).finalValue (descriptor.status.code == .succeeded)
  else word.clearDirty

theorem EntriesOk.entryFor_eq {shared : Shared} {d i address : Nat}
    (entries : EntriesOk pool shared d) (lists : shared.Lists d i address) :
    (shared.desc d).entryFor address = (shared.desc d).words i :=
  Descriptor.entryFor_eq (fun _ inside same =>
    entries.eq_of_address_eq inside lists.inside (same.trans lists.address_eq.symm))
    lists.inside lists.address_eq

section

variable {shared : Shared} {address : Nat}

theorem Shared.logical_of_isValue (value : (shared.mem address).IsValue) :
    shared.logical pool address = (shared.mem address).clearDirty := by
  simp [Shared.logical, Word.isCondCASDescriptorPtr, Word.isMwCASDescriptorPtr, value.1, value.2]

theorem Shared.logical_of_condCASPtr {d i : Nat} (inside : i < kMaxCount)
    (pointer : shared.mem address = pool.condCASPtr d i) :
    shared.logical pool address = ((shared.desc d).words i).oldValue := by
  simp only [Shared.logical, pointer, Word.isCondCASDescriptorPtr, Pool.condCASPtr_condcas,
    if_true, Shared.wordDescriptor, Pool.condCASPtr_rest,
    Pool.descriptorAt_wordAddress _ _ _ inside, Pool.wordAt_wordAddress _ _ _ inside]

theorem Shared.logical_of_mwCASPtr {d i : Nat} {dirty : Bool} (entries : EntriesOk pool shared d)
    (lists : shared.Lists d i address) (pointer : shared.mem address = pool.mwCASPtr d dirty) :
    shared.logical pool address =
      ((shared.desc d).words i).finalValue (shared.code d == .succeeded) := by
  simp only [Shared.logical, pointer, Word.isCondCASDescriptorPtr, Pool.mwCASPtr_condcas,
    Word.isMwCASDescriptorPtr, Pool.mwCASPtr_mwcas, if_true, Pool.mwCASPtr_rest,
    Pool.descriptorAt_descriptorAddress, entries.entryFor_eq lists]
  rfl

/-- The logical value depends on the word and on the entries and the verdict of the descriptor it
points to. -/
theorem Shared.logical_congr {after : Shared} (descriptors : DescriptorsOk build pool shared)
    (ok : WordOk build pool shared address (shared.mem address))
    (mem : after.mem address = shared.mem address)
    (entries : ∀ d, (shared.mem address).PointsTo pool d →
      (after.desc d).count = (shared.desc d).count ∧ (after.desc d).words = (shared.desc d).words)
    (code : ∀ d, (∃ dirty, shared.mem address = pool.mwCASPtr d dirty) →
      after.code d = shared.code d) :
    after.logical pool address = shared.logical pool address := by
  unfold Shared.logical
  rw [mem]
  rcases ok.form with value | reference | reference
  · simp [Word.isCondCASDescriptorPtr, Word.isMwCASDescriptorPtr, value.1, value.2]
  · obtain ⟨-, same⟩ := entries _ (reference.pointsTo descriptors)
    simp [Word.isCondCASDescriptorPtr, reference.condcas, Shared.wordDescriptor, same]
  · obtain ⟨sameCount, sameWords⟩ := entries _ reference.pointsTo
    have sameCode : (after.desc (pool.descriptorAt (shared.mem address).rest)).status.code =
        (shared.desc (pool.descriptorAt (shared.mem address).rest)).status.code :=
      code _ ⟨_, reference.1⟩
    simp [Word.isCondCASDescriptorPtr, Word.isMwCASDescriptorPtr, reference.flags.1,
      reference.flags.2, Descriptor.entryFor, sameCount, sameWords, sameCode]

end

end Pmwcas
