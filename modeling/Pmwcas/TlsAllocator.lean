/-
This file models `TlsAllocator`. Every thread carves blocks out of its slab, a piece of the memory of one
NUMA node that it took with one atomic addition, and keeps the blocks it frees in chains, one for each
block size. A block is a header of one cache line and the bytes behind it; the header has the size and
the next block of a chain.

Sizes and addresses are 64-bit numbers. The only word the threads share, apart from the blocks, is the
counter of each node, so a call is a sequence of steps with one addition each.
-/

import Mathlib
import Pmwcas.Library.Transition

namespace Pmwcas.TlsAllocator

open Transition

/-! ### Memory -/

def MB : Nat := 1024 * 1024

/-- `kNumaMemorySize`: the bytes mapped for each node. -/
def kNumaMemorySize : Nat := 10000 * MB

/-- `Slab::kSlabSize`. -/
def kSlabSize : Nat := 64 * MB

/-- `kCacheLineSize`, and `sizeof(Header)`. -/
def kCacheLineSize : Nat := 64

/-- What the environment provides: the regions `mmap` returned for the nodes, which are disjoint. -/
structure Config where
  nodes : Nat
  numaMemory : Nat → Nat
  positive : ∀ node, node < nodes → 0 < numaMemory node
  fits : ∀ node, node < nodes → numaMemory node + kNumaMemorySize ≤ 2 ^ 64
  disjoint : ∀ node other, node < nodes → other < nodes → node ≠ other →
    numaMemory node + kNumaMemorySize ≤ numaMemory other ∨
      numaMemory other + kNumaMemorySize ≤ numaMemory node

/-- `Header`: the size of the block behind it, and the next block; zero is the null pointer. -/
structure Header where
  size : Nat
  next : Nat
  deriving DecidableEq, Inhabited

/-- `BlockList`. -/
structure BlockList where
  head : Nat
  tail : Nat
  deriving DecidableEq

/-- `Slab`. -/
structure Slab where
  memory : Nat
  allocated : Nat
  deriving DecidableEq

/-- A block that is allocated: where its header is, and the size that was asked for. -/
structure Block where
  header : Nat
  requested : Nat
  deriving DecidableEq

/-- Where a thread is: outside, or at `retry` in `Slab::Allocate(n)`. -/
inductive Pc where
  | idle
  | slab (n requested : Nat)
  deriving DecidableEq

structure State where
  headers : Nat → Header
  numaAllocated : Nat → Nat
  slabs : Nat → Slab
  maps : Nat → Nat → Option BlockList
  pc : Nat → Pc
  live : List Block

/-- The calls and what their owners write into blocks. -/
inductive Action where
  | allocate (thread nSize : Nat)
  | carve (thread node : Nat)
  | free (thread : Nat) (block : Block)
  | write (block : Block) (header : Nat) (content : Header)
  deriving DecidableEq

/-! ### The calls -/

/-- `(nSize + sizeof(Header) + kCacheLineSize - 1) / kCacheLineSize * kCacheLineSize`. -/
def roundUp (nSize : Nat) : Nat :=
  (nSize + kCacheLineSize + (kCacheLineSize - 1)) % 2 ^ 64 / kCacheLineSize * kCacheLineSize

/-- `n - sizeof(Header)`. -/
def dataSize (n : Nat) : Nat := (n + (2 ^ 64 - kCacheLineSize)) % 2 ^ 64

def State.goto (state : State) (thread : Nat) (pc : Pc) : State :=
  { state with pc := Function.update state.pc thread pc }

def State.setMap (state : State) (thread key : Nat) (list : BlockList) : State :=
  { state with
    maps := Function.update state.maps thread
      (Function.update (state.maps thread) key (some list)) }

def State.setHeader (state : State) (address : Nat) (header : Header) : State :=
  { state with headers := Function.update state.headers address header }

/-- `BlockList::Get` on a chain that is not empty. -/
def State.get (state : State) (list : BlockList) : BlockList :=
  if list.head = list.tail then ⟨0, 0⟩ else ⟨(state.headers list.head).next, list.tail⟩

/-- `TlsAllocate` up to its call of `Slab::Allocate`. -/
def State.allocate (state : State) (thread nSize : Nat) : State :=
  match state.maps thread (dataSize (roundUp nSize)) with
  | none => state.goto thread (.slab (roundUp nSize) nSize)
  | some list =>
    if list.head = 0 then state.goto thread (.slab (roundUp nSize) nSize)
    else { state.setMap thread (dataSize (roundUp nSize)) (state.get list) with
      live := ⟨list.head, nSize⟩ :: state.live }

/-- The rest of `TlsAllocate`, with a block that was carved. -/
def State.finish (state : State) (thread n requested address : Nat) : State :=
  { (state.setHeader address ⟨dataSize n, 0⟩).goto thread .idle with
    live := ⟨address, requested⟩ :: state.live }

/-- One round of `Slab::Allocate`. There is no next state when `LOG(FATAL)` ends the process. -/
def State.carve (config : Config) (state : State) (thread node n requested : Nat) : Option State :=
  if (state.slabs thread).memory ≠ 0 ∧ ((state.slabs thread).allocated + n) % 2 ^ 64 ≤ kSlabSize then
    some { state.finish thread n requested
        ((state.slabs thread).memory + (state.slabs thread).allocated) with
      slabs := Function.update state.slabs thread
        { state.slabs thread with allocated := ((state.slabs thread).allocated + n) % 2 ^ 64 } }
  else if state.numaAllocated node ≥ kNumaMemorySize then none
  else some { state with
    numaAllocated := Function.update state.numaAllocated node
      ((state.numaAllocated node + kSlabSize) % 2 ^ 64)
    slabs := Function.update state.slabs thread
      ⟨config.numaMemory node + state.numaAllocated node, 0⟩ }

/-- `Free`: the block goes to the chain of its size of the calling thread. -/
def State.free (state : State) (thread header : Nat) : State :=
  let cleared := state.setHeader header { state.headers header with next := 0 }
  let key := (state.headers header).size
  match state.maps thread key with
  | none => cleared.setMap thread key ⟨header, header⟩
  | some list =>
    if list.head = 0 then cleared.setMap thread key ⟨header, header⟩
    else (cleared.setHeader list.tail { cleared.headers list.tail with next := header }).setMap
      thread key ⟨list.head, header⟩

/-- Two ranges of bytes have a byte in common. -/
def Overlap (first firstSize second secondSize : Nat) : Prop :=
  first < second + secondSize ∧ second < first + firstSize

instance (first firstSize second secondSize : Nat) :
    Decidable (Overlap first firstSize second secondSize) :=
  inferInstanceAs (Decidable (_ ∧ _))

/-- One step. A block is freed only while it is allocated, and its owner writes only its bytes. -/
def next (config : Config) (state : State) : Action → Option State
  | .allocate thread nSize =>
    if state.pc thread = .idle ∧ nSize < 2 ^ 64 then some (state.allocate thread nSize) else none
  | .carve thread node =>
    if node < config.nodes then
      match state.pc thread with
      | .idle => none
      | .slab n requested => state.carve config thread node n requested
    else none
  | .free thread block =>
    if state.pc thread = .idle ∧ block ∈ state.live then
      some { state.free thread block.header with live := state.live.erase block }
    else none
  | .write block header content =>
    if block ∈ state.live ∧ Overlap header kCacheLineSize (block.header + kCacheLineSize)
        (state.headers block.header).size then
      some (state.setHeader header content)
    else none

/-- Before the first call. -/
def State.start : State where
  headers _ := ⟨0, 0⟩
  numaAllocated _ := 0
  slabs _ := ⟨0, 0⟩
  maps _ _ := none
  pc _ := .idle
  live := []

/-- The memory the headers lie in has any content. -/
def Initial (state : State) : Prop :=
  state.numaAllocated = State.start.numaAllocated ∧ state.slabs = State.start.slabs ∧
    state.maps = State.start.maps ∧ state.pc = State.start.pc ∧ state.live = State.start.live

def system (config : Config) : System State Action := .ofNext Initial (next config)

/-! ### Soundness -/

/-- The header and the bytes of a block. -/
def State.blockSize (state : State) (header : Nat) : Nat :=
  kCacheLineSize + (state.headers header).size

/-- A header is in the part of a chain from one header to another. -/
inductive InChain (headers : Nat → Header) (tail : Nat) : Nat → Nat → Prop where
  | here (head : Nat) : InChain headers tail head head
  | later {head header : Nat} (more : head ≠ tail) (rest : InChain headers tail (headers head).next header) :
    InChain headers tail head header

/-- The header is in a free chain of some thread. -/
def State.Free (state : State) (header : Nat) : Prop :=
  ∃ thread key list, state.maps thread key = some list ∧ list.head ≠ 0 ∧
    InChain state.headers list.tail list.head header

/-- What the claim is: every allocated block lies in the memory of one node, is large enough, and is
apart from the other blocks and from the headers in free chains. -/
structure Sound (config : Config) (state : State) : Prop where
  inside : ∀ block ∈ state.live, ∃ node < config.nodes, config.numaMemory node ≤ block.header ∧
    block.header + state.blockSize block.header ≤ config.numaMemory node + kNumaMemorySize
  enough : ∀ block ∈ state.live, block.requested ≤ (state.headers block.header).size
  apart : state.live.Pairwise fun one two =>
    ¬ Overlap one.header (state.blockSize one.header) two.header (state.blockSize two.header)
  chains : ∀ block ∈ state.live, ∀ header, state.Free header →
    ¬ Overlap block.header (state.blockSize block.header) header kCacheLineSize

/-- A size that is added to the mark of a slab does not go beyond 64 bits, and a block from the last slab
of a node, the one that starts 16 MB before the end of its memory, ends in these 16 MB. -/
def CarveFits (config : Config) (slab : Slab) : Pc → Prop
  | .idle => True
  | .slab n _ => slab.allocated + n < 2 ^ 64 ∧
    ∀ node < config.nodes, slab.memory = config.numaMemory node + 156 * kSlabSize →
      slab.allocated + n ≤ kSlabSize → slab.allocated + n ≤ 16 * MB

instance (config : Config) (slab : Slab) : (pc : Pc) → Decidable (CarveFits config slab pc)
  | .idle => inferInstanceAs (Decidable True)
  | .slab n _ => inferInstanceAs (Decidable (slab.allocated + n < 2 ^ 64 ∧
    ∀ node < config.nodes, slab.memory = config.numaMemory node + 156 * kSlabSize →
      slab.allocated + n ≤ kSlabSize → slab.allocated + n ≤ 16 * MB))

/-- The sizes stay below 64 bits when they are rounded up and added, and no block lies in the part of the
last slab of a node that is not mapped. -/
def Condition (config : Config) (state : State) : Action → Prop
  | .allocate _ nSize => nSize + 2 * kCacheLineSize ≤ 2 ^ 64
  | .carve thread _ => CarveFits config (state.slabs thread) (state.pc thread)
  | .free _ _ => True
  | .write _ _ _ => True

instance (config : Config) (state : State) : (action : Action) → Decidable (Condition config state action)
  | .allocate _ nSize => inferInstanceAs (Decidable (nSize + 2 * kCacheLineSize ≤ 2 ^ 64))
  | .carve thread _ =>
    inferInstanceAs (Decidable (CarveFits config (state.slabs thread) (state.pc thread)))
  | .free _ _ => inferInstanceAs (Decidable True)
  | .write _ _ _ => inferInstanceAs (Decidable True)

end Pmwcas.TlsAllocator
