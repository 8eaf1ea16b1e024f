/-
This file models the 64-bit target word and the addresses a descriptor pool hands out.

The three most significant bits of a word carry the management flags,

  |--63---|----62---|---61--|--rest bits--|
  |-MwCAS-|-CondCAS-|-Dirty-|-------------|

and the rest is either a user value or the address of a descriptor (MwCAS flag) or of a word
descriptor (CondCAS flag). A `Word` keeps the three flags and the rest apart; no operation of the
protocol does arithmetic on the rest, so it is a natural number. A pool is an array of descriptors
of four cache lines each, and a word descriptor is one of the four elements of the array
`words_` inside its descriptor.
-/

import Mathlib.Tactic.Common

namespace Pmwcas

/-! ### Target words and their flags -/

/-- The two builds: `PMEM` defined or not. -/
inductive Build where
  | persistent
  | volatile
  deriving DecidableEq, Repr

/-- An 8-byte word: the flags `kMwCASFlag`, `kCondCASFlag`, `kDirtyFlag` and the rest bits. -/
@[ext]
structure Word where
  mwcas : Bool
  condcas : Bool
  dirty : Bool
  rest : Nat
  deriving DecidableEq, Repr

namespace Word

/-- A word with none of the three flags set. -/
def plain (value : Nat) : Word :=
  { mwcas := false, condcas := false, dirty := false, rest := value }

/-- `IsMwCASDescriptorPtr`. -/
def isMwCASDescriptorPtr (word : Word) : Bool := word.mwcas

/-- `IsCondCASDescriptorPtr`. -/
def isCondCASDescriptorPtr (word : Word) : Bool := word.condcas

/-- `IsDirtyPtr`. -/
def isDirtyPtr (word : Word) : Bool := word.dirty

/-- `CleanPtr`: all three flags cleared. -/
def cleanPtr (word : Word) : Word := plain word.rest

/-- `IsCleanPtr`: no management flag is set. -/
def isCleanPtr (word : Word) : Bool := !(word.mwcas || word.condcas || word.dirty)

/-- `word & ~kDirtyFlag`. -/
def clearDirty (word : Word) : Word := { word with dirty := false }

/-- `word | kDirtyFlag`. -/
def setDirty (word : Word) : Word := { word with dirty := true }

/-- The word with the dirty bit set or cleared as asked. -/
def withDirty (word : Word) (dirty : Bool) : Word := { word with dirty := dirty }

/-- A user value, with or without the dirty bit: neither pointer flag is set. -/
def IsValue (word : Word) : Prop := word.mwcas = false ∧ word.condcas = false

instance (word : Word) : Decidable word.IsValue :=
  inferInstanceAs (Decidable (_ ∧ _))

@[simp] theorem clearDirty_mwcas (word : Word) : word.clearDirty.mwcas = word.mwcas := rfl

@[simp] theorem clearDirty_condcas (word : Word) : word.clearDirty.condcas = word.condcas := rfl

@[simp] theorem clearDirty_dirty (word : Word) : word.clearDirty.dirty = false := rfl

@[simp] theorem clearDirty_rest (word : Word) : word.clearDirty.rest = word.rest := rfl

@[simp] theorem setDirty_mwcas (word : Word) : word.setDirty.mwcas = word.mwcas := rfl

@[simp] theorem setDirty_condcas (word : Word) : word.setDirty.condcas = word.condcas := rfl

@[simp] theorem setDirty_dirty (word : Word) : word.setDirty.dirty = true := rfl

@[simp] theorem setDirty_rest (word : Word) : word.setDirty.rest = word.rest := rfl

@[simp] theorem clearDirty_clearDirty (word : Word) :
    word.clearDirty.clearDirty = word.clearDirty := rfl

@[simp] theorem clearDirty_setDirty (word : Word) : word.setDirty.clearDirty = word.clearDirty := rfl

@[simp] theorem withDirty_mwcas (word : Word) (dirty : Bool) :
    (word.withDirty dirty).mwcas = word.mwcas := rfl

@[simp] theorem withDirty_condcas (word : Word) (dirty : Bool) :
    (word.withDirty dirty).condcas = word.condcas := rfl

@[simp] theorem withDirty_dirty (word : Word) (dirty : Bool) : (word.withDirty dirty).dirty = dirty := rfl

@[simp] theorem withDirty_rest (word : Word) (dirty : Bool) :
    (word.withDirty dirty).rest = word.rest := rfl

@[simp] theorem clearDirty_withDirty (word : Word) (dirty : Bool) :
    (word.withDirty dirty).clearDirty = word.clearDirty := rfl

theorem isCleanPtr_iff (word : Word) :
    word.isCleanPtr = true ↔ word.mwcas = false ∧ word.condcas = false ∧ word.dirty = false := by
  simp [isCleanPtr, and_assoc]

theorem IsValue.of_isCleanPtr {word : Word} (clean : word.isCleanPtr = true) : word.IsValue :=
  ⟨((isCleanPtr_iff word).mp clean).1, ((isCleanPtr_iff word).mp clean).2.1⟩

theorem IsValue.clearDirty {word : Word} (value : word.IsValue) : word.clearDirty.IsValue := value

theorem IsValue.withDirty {word : Word} (value : word.IsValue) (dirty : Bool) :
    (word.withDirty dirty).IsValue := value

theorem clearDirty_of_isCleanPtr {word : Word} (clean : word.isCleanPtr = true) :
    word.clearDirty = word := by
  obtain ⟨_, _, notDirty⟩ := (isCleanPtr_iff word).mp clean
  exact Word.ext rfl rfl notDirty.symm rfl

end Word

/-! ### The layout of a descriptor pool -/

/-- `Descriptor::kMaxCount`. -/
def kMaxCount : Nat := 4

/-- `sizeof(Descriptor)`: the 24 bytes of `BaseDescriptor` (virtual table, `next_ptr_`,
`owner_partition_`), `status_` and `count_`, two callbacks and four word descriptors, rounded up
to whole cache lines. -/
def sizeofDescriptor : Nat := 256

/-- `offsetof(Descriptor, words_)`. -/
def wordsOffset : Nat := 48

/-- `sizeof(WordDescriptor)`: three words, `ownDesc_` and the padded `recycle_policy_`. -/
def sizeofWordDescriptor : Nat := 40

/-- A descriptor pool: where the array `descriptors_` begins, and how many there are. -/
structure Pool where
  base : Nat
  size : Nat
  base_pos : 0 < base

namespace Pool

variable (pool : Pool)

/-- The address of descriptor `d`, `descriptors_ + d`. -/
def descriptorAddress (d : Nat) : Nat := pool.base + sizeofDescriptor * d

/-- The address of `descriptors_[d].words_[i]`. -/
def wordAddress (d i : Nat) : Nat :=
  pool.base + (sizeofDescriptor * d + (wordsOffset + sizeofWordDescriptor * i))

/-- The descriptor an address inside the pool belongs to. -/
def descriptorAt (address : Nat) : Nat := (address - pool.base) / sizeofDescriptor

/-- The element of `words_` an address inside the pool belongs to. -/
def wordAt (address : Nat) : Nat :=
  ((address - pool.base) % sizeofDescriptor - wordsOffset) / sizeofWordDescriptor

/-- `SetFlags(descriptors_ + d, kMwCASFlag | dirty_flag)`. -/
def mwCASPtr (d : Nat) (dirty : Bool) : Word :=
  { mwcas := true, condcas := false, dirty := dirty, rest := pool.descriptorAddress d }

/-- `SetFlags(&descriptors_[d].words_[i], kCondCASFlag)`. -/
def condCASPtr (d i : Nat) : Word :=
  { mwcas := false, condcas := true, dirty := false, rest := pool.wordAddress d i }

/-- The rest bits are not the address of a descriptor or of a word descriptor of the pool. -/
def Foreign (word : Word) : Prop :=
  ∀ d < pool.size, word.rest ≠ pool.descriptorAddress d ∧
    ∀ i < kMaxCount, word.rest ≠ pool.wordAddress d i

instance (word : Word) : Decidable (pool.Foreign word) :=
  inferInstanceAs (Decidable (∀ d < pool.size, word.rest ≠ pool.descriptorAddress d ∧
    ∀ i < kMaxCount, word.rest ≠ pool.wordAddress d i))

@[simp] theorem descriptorAt_descriptorAddress (d : Nat) :
    pool.descriptorAt (pool.descriptorAddress d) = d := by
  simp only [descriptorAt, descriptorAddress, sizeofDescriptor]
  omega

theorem descriptorAt_wordAddress (d i : Nat) (inside : i < kMaxCount) :
    pool.descriptorAt (pool.wordAddress d i) = d := by
  simp only [descriptorAt, wordAddress, sizeofDescriptor, wordsOffset, sizeofWordDescriptor,
    kMaxCount] at *
  omega

theorem wordAt_wordAddress (d i : Nat) (inside : i < kMaxCount) :
    pool.wordAt (pool.wordAddress d i) = i := by
  simp only [wordAt, wordAddress, sizeofDescriptor, wordsOffset, sizeofWordDescriptor,
    kMaxCount] at *
  have offset : (pool.base + (256 * d + (48 + 40 * i)) - pool.base) % 256 = 48 + 40 * i := by
    omega
  rw [offset]
  omega

theorem descriptorAddress_injective {d e : Nat}
    (same : pool.descriptorAddress d = pool.descriptorAddress e) : d = e := by
  rw [← pool.descriptorAt_descriptorAddress d, same, descriptorAt_descriptorAddress]

theorem descriptorAddress_ne_wordAddress (d e j : Nat) (inside : j < kMaxCount) :
    pool.descriptorAddress d ≠ pool.wordAddress e j := by
  simp only [descriptorAddress, wordAddress, sizeofDescriptor, wordsOffset,
    sizeofWordDescriptor, kMaxCount] at *
  omega

theorem descriptorAddress_pos (d : Nat) : 0 < pool.descriptorAddress d :=
  Nat.lt_of_lt_of_le pool.base_pos (Nat.le_add_right _ _)

@[simp] theorem mwCASPtr_mwcas (d : Nat) (dirty : Bool) : (pool.mwCASPtr d dirty).mwcas = true := rfl

@[simp] theorem mwCASPtr_condcas (d : Nat) (dirty : Bool) :
    (pool.mwCASPtr d dirty).condcas = false := rfl

@[simp] theorem mwCASPtr_dirty (d : Nat) (dirty : Bool) : (pool.mwCASPtr d dirty).dirty = dirty := rfl

@[simp] theorem mwCASPtr_rest (d : Nat) (dirty : Bool) :
    (pool.mwCASPtr d dirty).rest = pool.descriptorAddress d := rfl

@[simp] theorem condCASPtr_mwcas (d i : Nat) : (pool.condCASPtr d i).mwcas = false := rfl

@[simp] theorem condCASPtr_condcas (d i : Nat) : (pool.condCASPtr d i).condcas = true := rfl

@[simp] theorem condCASPtr_dirty (d i : Nat) : (pool.condCASPtr d i).dirty = false := rfl

@[simp] theorem condCASPtr_rest (d i : Nat) : (pool.condCASPtr d i).rest = pool.wordAddress d i := rfl

@[simp] theorem clearDirty_mwCASPtr (d : Nat) (dirty : Bool) :
    (pool.mwCASPtr d dirty).clearDirty = pool.mwCASPtr d false := rfl

@[simp] theorem clearDirty_condCASPtr (d i : Nat) :
    (pool.condCASPtr d i).clearDirty = pool.condCASPtr d i := rfl

theorem mwCASPtr_inj {d e : Nat} {first second : Bool}
    (same : pool.mwCASPtr d first = pool.mwCASPtr e second) : d = e ∧ first = second :=
  ⟨pool.descriptorAddress_injective (congrArg Word.rest same), congrArg Word.dirty same⟩

theorem condCASPtr_inj {d e i j : Nat} (left : i < kMaxCount) (right : j < kMaxCount)
    (same : pool.condCASPtr d i = pool.condCASPtr e j) : d = e ∧ i = j := by
  have addresses : pool.wordAddress d i = pool.wordAddress e j := congrArg Word.rest same
  refine ⟨?_, ?_⟩
  · rw [← pool.descriptorAt_wordAddress d i left, addresses, descriptorAt_wordAddress _ _ _ right]
  · rw [← pool.wordAt_wordAddress d i left, addresses, wordAt_wordAddress _ _ _ right]

theorem mwCASPtr_ne_condCASPtr (d e j : Nat) (dirty : Bool) :
    pool.mwCASPtr d dirty ≠ pool.condCASPtr e j := by
  intro same
  exact absurd (congrArg Word.mwcas same) (by simp)

theorem mwCASPtr_not_isValue (d : Nat) (dirty : Bool) : ¬ (pool.mwCASPtr d dirty).IsValue := by
  simp [Word.IsValue]

theorem condCASPtr_not_isValue (d i : Nat) : ¬ (pool.condCASPtr d i).IsValue := by
  simp [Word.IsValue]

end Pool

end Pmwcas
