/-
This file proves that the allocator is sound as long as no size is cut to 64 bits and no block lies in the
part of the last slab of a node that is not mapped. The blocks ever carved lie in their slabs and apart
from each other; a thread's slab has nothing behind its mark, and no two threads have the same slab. Every
block is allocated or in one chain, at one place of it.
-/

import Pmwcas.TlsAllocator

namespace Pmwcas.TlsAllocator

open Transition

variable {config : Config} {state after : State}

theorem kNumaMemorySize_eq : kNumaMemorySize = 156 * kSlabSize + 16 * MB := by decide

/-! ### Carved blocks -/

/-- A block that was carved: the node, the number of the slab in it, the offset and the size, header
included. -/
structure Carved where
  node : Nat
  slab : Nat
  offset : Nat
  n : Nat

/-- Where the header of a carved block is. -/
def Carved.header (config : Config) (block : Carved) : Nat :=
  config.numaMemory block.node + block.slab * kSlabSize + block.offset

/-- The blocks carved so far, and the slabs of the threads, by node and number. -/
structure Carving (config : Config) (numaAllocated : Nat → Nat) (slabs : Nat → Slab)
    (places : Nat → Option (Nat × Nat)) (blocks : Set Carved) : Prop where
  counters : ∀ node < config.nodes, kSlabSize ∣ numaAllocated node ∧
    numaAllocated node < kNumaMemorySize + kSlabSize
  node : ∀ block ∈ blocks, block.node < config.nodes
  taken : ∀ block ∈ blocks, (block.slab + 1) * kSlabSize ≤ numaAllocated block.node
  fits : ∀ block ∈ blocks, block.offset + block.n ≤ kSlabSize
  mapped : ∀ block ∈ blocks, block.slab * kSlabSize + block.offset + block.n ≤ kNumaMemorySize
  size : ∀ block ∈ blocks, kCacheLineSize ≤ block.n
  apart : ∀ one ∈ blocks, ∀ two ∈ blocks, one ≠ two → one.node = two.node → one.slab = two.slab →
    one.offset + one.n ≤ two.offset ∨ two.offset + two.n ≤ one.offset
  none : ∀ thread, places thread = none → (slabs thread).memory = 0
  slab : ∀ thread node number, places thread = some (node, number) → node < config.nodes ∧
    (slabs thread).memory = config.numaMemory node + number * kSlabSize ∧
    (number + 1) * kSlabSize ≤ numaAllocated node ∧ (slabs thread).allocated ≤ kSlabSize ∧
    ∀ block ∈ blocks, block.node = node → block.slab = number →
      block.offset + block.n ≤ (slabs thread).allocated
  own : ∀ thread other place, places thread = some place → places other = some place → thread = other

section Carving

variable {numaAllocated : Nat → Nat} {slabs : Nat → Slab} {places : Nat → Option (Nat × Nat)}
  {blocks : Set Carved}
  (carving : Carving config numaAllocated slabs places blocks)

include carving

theorem Carving.header_pos {block : Carved} (member : block ∈ blocks) : block.header config ≠ 0 := by
  have positive := config.positive block.node (carving.node block member)
  unfold Carved.header
  omega

/-- Every carved block lies in the memory of its node. -/
theorem Carving.inside {block : Carved} (member : block ∈ blocks) :
    config.numaMemory block.node ≤ block.header config ∧
      block.header config + block.n ≤ config.numaMemory block.node + kNumaMemorySize := by
  have mapped := carving.mapped block member
  unfold Carved.header
  omega

/-- Two carved blocks have no byte in common. -/
theorem Carving.not_overlap {one two : Carved} (first : one ∈ blocks) (second : two ∈ blocks)
    (different : one ≠ two) :
    ¬ Overlap (one.header config) one.n (two.header config) two.n := by
  rintro ⟨before, behind⟩
  have insideOne := carving.inside first
  have insideTwo := carving.inside second
  by_cases sameNode : one.node = two.node
  · by_cases sameSlab : one.slab = two.slab
    · have apart := carving.apart one first two second different sameNode sameSlab
      unfold Carved.header at before behind
      rw [sameNode, sameSlab] at before behind
      omega
    · have fitsOne := carving.fits one first
      have fitsTwo := carving.fits two second
      unfold Carved.header at before behind
      rw [sameNode] at before behind
      rcases Nat.lt_or_gt_of_ne sameSlab with less | more
      · have slabs : (one.slab + 1) * kSlabSize ≤ two.slab * kSlabSize := Nat.mul_le_mul_right _ less
        rw [Nat.add_mul, Nat.one_mul] at slabs
        omega
      · have slabs : (two.slab + 1) * kSlabSize ≤ one.slab * kSlabSize := Nat.mul_le_mul_right _ more
        rw [Nat.add_mul, Nat.one_mul] at slabs
        omega
  · have regions := config.disjoint one.node two.node (carving.node one first)
      (carving.node two second) sameNode
    omega

/-- The header of a block tells which one it is. -/
theorem Carving.header_injective {one two : Carved} (first : one ∈ blocks) (second : two ∈ blocks)
    (same : one.header config = two.header config) : one = two := by
  by_contra different
  have sizeOne := carving.size one first
  have sizeTwo := carving.size two second
  refine carving.not_overlap first second different ⟨?_, ?_⟩
  · unfold kCacheLineSize at sizeTwo
    omega
  · unfold kCacheLineSize at sizeOne
    omega

/-- A new block behind the mark of a slab. -/
theorem Carving.carve {thread node number n : Nat} (place : places thread = some (node, number))
    (fits : (slabs thread).allocated + n ≤ kSlabSize) (size : kCacheLineSize ≤ n)
    (mapped : number * kSlabSize + (slabs thread).allocated + n ≤ kNumaMemorySize) :
    Carving config numaAllocated
      (Function.update slabs thread { slabs thread with allocated := (slabs thread).allocated + n })
      places (insert ⟨node, number, (slabs thread).allocated, n⟩ blocks) where
  counters := carving.counters
  node block member := by
    rcases member with rfl | old
    · exact (carving.slab thread node number place).1
    · exact carving.node block old
  taken block member := by
    rcases member with rfl | old
    · exact (carving.slab thread node number place).2.2.1
    · exact carving.taken block old
  fits block member := by
    rcases member with rfl | old
    · exact fits
    · exact carving.fits block old
  mapped block member := by
    rcases member with rfl | old
    · exact mapped
    · exact carving.mapped block old
  size block member := by
    rcases member with rfl | old
    · exact size
    · exact carving.size block old
  apart one first two second different sameNode sameSlab := by
    have below := (carving.slab thread node number place).2.2.2.2
    rcases first with rfl | first
    · rcases second with rfl | second
      · exact absurd rfl different
      · exact Or.inr (below two second sameNode.symm sameSlab.symm)
    · rcases second with rfl | second
      · exact Or.inl (below one first sameNode sameSlab)
      · exact carving.apart one first two second different sameNode sameSlab
  none other absent := by
    have different : other ≠ thread := by
      rintro rfl
      rw [place] at absent
      cases absent
    rw [Function.update_of_ne different]
    exact carving.none other absent
  slab other otherNode otherNumber found := by
    obtain ⟨inside, memory, taken, bound, below⟩ := carving.slab other otherNode otherNumber found
    by_cases same : other = thread
    · subst same
      rw [place] at found
      cases found
      simp only [Function.update_self]
      refine ⟨inside, memory, taken, fits, fun block member sameNode sameSlab => ?_⟩
      rcases member with rfl | old
      · exact Nat.le_refl _
      · exact Nat.le_add_right_of_le (below block old sameNode sameSlab)
    · rw [Function.update_of_ne same]
      refine ⟨inside, memory, taken, bound, fun block member sameNode sameSlab => ?_⟩
      rcases member with rfl | old
      · obtain rfl : node = otherNode := sameNode
        obtain rfl : number = otherNumber := sameSlab
        exact absurd (carving.own other thread _ found place) same
      · exact below block old sameNode sameSlab
  own := carving.own

/-- A new slab from the memory of a node. -/
theorem Carving.newSlab {thread node : Nat} (inside : node < config.nodes)
    (room : numaAllocated node < kNumaMemorySize) :
    Carving config (Function.update numaAllocated node (numaAllocated node + kSlabSize))
      (Function.update slabs thread ⟨config.numaMemory node + numaAllocated node, 0⟩)
      (Function.update places thread (some (node, numaAllocated node / kSlabSize))) blocks := by
  have slabPos : 0 < kSlabSize := by decide
  have whole : numaAllocated node / kSlabSize * kSlabSize = numaAllocated node :=
    Nat.div_mul_cancel (carving.counters node inside).1
  have grows : ∀ other, numaAllocated other ≤
      Function.update numaAllocated node (numaAllocated node + kSlabSize) other := by
    intro other
    by_cases same : other = node
    · rw [same, Function.update_self]
      exact Nat.le_add_right _ _
    · rw [Function.update_of_ne same]
  -- no block and no slab has the new number yet
  have fresh : ∀ number, (number + 1) * kSlabSize ≤ numaAllocated node →
      number ≠ numaAllocated node / kSlabSize := by
    rintro number below rfl
    rw [Nat.add_mul, Nat.one_mul, whole] at below
    omega
  refine ⟨fun other below => ?_, carving.node,
    fun block member => Nat.le_trans (carving.taken block member) (grows _), carving.fits,
    carving.mapped, carving.size, carving.apart, fun other absent => ?_,
    fun other otherNode number found => ?_, fun one two place first second => ?_⟩
  · obtain ⟨divides, bound⟩ := carving.counters other below
    by_cases same : other = node
    · subst same
      rw [Function.update_self]
      exact ⟨Nat.dvd_add divides (Nat.dvd_refl _), by omega⟩
    · rw [Function.update_of_ne same]
      exact ⟨divides, bound⟩
  · by_cases same : other = thread
    · rw [same, Function.update_self] at absent
      cases absent
    · rw [Function.update_of_ne same] at absent ⊢
      exact carving.none other absent
  · by_cases same : other = thread
    · subst same
      rw [Function.update_self] at found
      cases found
      simp only [Function.update_self]
      refine ⟨inside, by rw [whole], ?_, Nat.zero_le _, fun block member sameNode sameSlab => ?_⟩
      · rw [Nat.add_mul, Nat.one_mul, whole]
      · have taken := carving.taken block member
        rw [sameNode] at taken
        exact absurd sameSlab (fresh _ taken)
    · rw [Function.update_of_ne same] at found ⊢
      obtain ⟨below, memory, taken, bound, behind⟩ := carving.slab other otherNode number found
      exact ⟨below, memory, Nat.le_trans taken (grows _), bound, behind⟩
  · have other : ∀ {t : Nat}, t ≠ thread → places t = some (node, numaAllocated node / kSlabSize) →
        False := by
      intro t _ found
      exact fresh _ (carving.slab t _ _ found).2.2.1 rfl
    by_cases isOne : one = thread
    · by_cases isTwo : two = thread
      · rw [isOne, isTwo]
      · rw [isOne, Function.update_self] at first
        rw [Function.update_of_ne isTwo, ← first] at second
        exact (other isTwo second).elim
    · rw [Function.update_of_ne isOne] at first
      by_cases isTwo : two = thread
      · rw [isTwo, Function.update_self] at second
        rw [← second] at first
        exact (other isOne first).elim
      · rw [Function.update_of_ne isTwo] at second
        exact carving.own one two place first second

end Carving

/-! ### Chains -/

/-- The headers of a chain from its head to its tail. -/
inductive Links (headers : Nat → Header) (tail : Nat) : Nat → List Nat → Prop where
  | last : Links headers tail tail [tail]
  | more {head : Nat} {rest : List Nat} (later : Links headers tail (headers head).next rest) :
    Links headers tail head (head :: rest)

section Links

variable {headers : Nat → Header} {tail head : Nat} {list : List Nat}

theorem Links.head_mem (links : Links headers tail head list) : head ∈ list := by
  cases links with
  | last => exact List.mem_cons_self
  | more later => exact List.mem_cons_self

theorem Links.tail_mem (links : Links headers tail head list) : tail ∈ list := by
  induction links with
  | last => exact List.mem_cons_self
  | more later inductionHypothesis => exact List.mem_cons_of_mem _ inductionHypothesis

theorem Links.congr (links : Links headers tail head list) {others : Nat → Header}
    (same : ∀ header ∈ list, others header = headers header) : Links others tail head list := by
  induction links with
  | last => exact .last
  | @more head rest later inductionHypothesis =>
    refine .more ?_
    rw [same head List.mem_cons_self]
    exact inductionHypothesis fun header member => same header (List.mem_cons_of_mem _ member)

theorem Links.mem_of_inChain (links : Links headers tail head list) {header : Nat}
    (inChain : InChain headers tail head header) : header ∈ list := by
  induction links with
  | last =>
    cases inChain with
    | here => exact List.mem_cons_self
    | later more rest => exact absurd rfl more
  | more later inductionHypothesis =>
    cases inChain with
    | here => exact List.mem_cons_self
    | later more rest => exact List.mem_cons_of_mem _ (inductionHypothesis rest)

/-- The chain without its first block. -/
theorem Links.behind (links : Links headers tail head list) (nodup : list.Nodup) :
    ∃ rest, list = head :: rest ∧
      if head = tail then rest = [] else Links headers tail (headers head).next rest := by
  cases links with
  | last => exact ⟨[], rfl, by rw [if_pos rfl]⟩
  | @more _ rest later =>
    refine ⟨rest, rfl, ?_⟩
    rw [if_neg]
    · exact later
    · rintro rfl
      exact (List.nodup_cons.1 nodup).1 later.tail_mem

/-- A block behind the last one. -/
theorem Links.append (links : Links headers tail head list) (nodup : list.Nodup) {header : Nat}
    {others : Nat → Header} (same : ∀ other ∈ list, other ≠ tail → others other = headers other)
    (linked : (others tail).next = header) : Links others header head (list ++ [header]) := by
  induction links with
  | last =>
    refine .more ?_
    rw [linked]
    exact .last
  | @more head rest later inductionHypothesis =>
    obtain ⟨absent, nodupRest⟩ := List.nodup_cons.1 nodup
    have different : head ≠ tail := by
      rintro rfl
      exact absent later.tail_mem
    refine .more ?_
    rw [same head List.mem_cons_self different]
    exact inductionHypothesis nodupRest fun other member => same other (List.mem_cons_of_mem _ member)

end Links

/-- The chain of a `BlockList`, if there is one. -/
def ChainOk (headers : Nat → Header) : Option BlockList → List Nat → Prop
  | none, list => list = []
  | some chain, list => if chain.head = 0 then list = [] else Links headers chain.tail chain.head list

theorem chainOk_empty_iff {headers : Nat → Header} {chain : BlockList} {list : List Nat}
    (empty : chain.head = 0) : ChainOk headers (some chain) list ↔ list = [] := by
  rw [ChainOk, if_pos empty]

theorem chainOk_links_iff {headers : Nat → Header} {chain : BlockList} {list : List Nat}
    (notEmpty : chain.head ≠ 0) :
    ChainOk headers (some chain) list ↔ Links headers chain.tail chain.head list := by
  rw [ChainOk, if_neg notEmpty]

theorem ChainOk.congr {headers others : Nat → Header} {chain : Option BlockList} {list : List Nat}
    (ok : ChainOk headers chain list) (same : ∀ header ∈ list, others header = headers header) :
    ChainOk others chain list := by
  cases chain with
  | none => exact ok
  | some chain =>
    by_cases empty : chain.head = 0
    · exact (chainOk_empty_iff empty).2 ((chainOk_empty_iff empty).1 ok)
    · exact (chainOk_links_iff empty).2 (((chainOk_links_iff empty).1 ok).congr same)

/-! ### Owners -/

/-- The chains with another one for a thread and a size. -/
def setChain (chains : Nat → Nat → List Nat) (thread key : Nat) (list : List Nat) : Nat → Nat → List Nat :=
  fun otherThread otherKey =>
    if otherThread = thread ∧ otherKey = key then list else chains otherThread otherKey

theorem setChain_self (chains : Nat → Nat → List Nat) (thread key : Nat) (list : List Nat) :
    setChain chains thread key list thread key = list := if_pos ⟨rfl, rfl⟩

theorem setChain_of_ne {chains : Nat → Nat → List Nat} {thread key otherThread otherKey : Nat}
    {list : List Nat} (different : ¬ (otherThread = thread ∧ otherKey = key)) :
    setChain chains thread key list otherThread otherKey = chains otherThread otherKey :=
  if_neg different

theorem setMap_maps_self (state : State) (thread key : Nat) (list : BlockList) :
    (state.setMap thread key list).maps thread key = some list := by
  simp [State.setMap]

theorem setMap_maps_of_ne (state : State) {thread key otherThread otherKey : Nat} (list : BlockList)
    (different : ¬ (otherThread = thread ∧ otherKey = key)) :
    (state.setMap thread key list).maps otherThread otherKey = state.maps otherThread otherKey := by
  unfold State.setMap
  by_cases sameThread : otherThread = thread
  · subst sameThread
    have otherwise : otherKey ≠ key := fun same => different ⟨rfl, same⟩
    simp only [Function.update_self, Function.update_of_ne otherwise]
  · simp only [Function.update_of_ne sameThread]

/-- Every block is allocated or in a chain, once. -/
structure Owning (config : Config) (headers : Nat → Header) (maps : Nat → Nat → Option BlockList)
    (live : List Block) (blocks : Set Carved) (chains : Nat → Nat → List Nat) : Prop where
  size : ∀ block ∈ blocks, (headers (block.header config)).size + kCacheLineSize = block.n
  allocated : ∀ used ∈ live, ∃ block ∈ blocks, block.header config = used.header ∧
    used.requested + kCacheLineSize ≤ block.n
  liveOnce : (live.map Block.header).Nodup
  linked : ∀ thread key, ChainOk headers (maps thread key) (chains thread key)
  chained : ∀ thread key, ∀ header ∈ chains thread key, ∃ block ∈ blocks,
    block.header config = header ∧ key + kCacheLineSize = block.n
  chainOnce : ∀ thread key, (chains thread key).Nodup
  free : ∀ thread key, ∀ header ∈ chains thread key, header ∉ live.map Block.header
  unique : ∀ thread key otherThread otherKey header, header ∈ chains thread key →
    header ∈ chains otherThread otherKey → otherThread = thread ∧ otherKey = key

section Owning

variable {headers : Nat → Header} {maps : Nat → Nat → Option BlockList} {live : List Block}
  {blocks : Set Carved} {chains : Nat → Nat → List Nat}
  (owning : Owning config headers maps live blocks chains)

include owning

/-- A write that leaves the headers of all blocks alone. -/
theorem Owning.write {others : Nat → Header}
    (same : ∀ block ∈ blocks, others (block.header config) = headers (block.header config)) :
    Owning config others maps live blocks chains where
  size block member := by
    rw [same block member]
    exact owning.size block member
  allocated := owning.allocated
  liveOnce := owning.liveOnce
  linked thread key := by
    refine (owning.linked thread key).congr fun header member => ?_
    obtain ⟨block, carved, rfl, -⟩ := owning.chained thread key header member
    exact same block carved
  chained := owning.chained
  chainOnce := owning.chainOnce
  free := owning.free
  unique := owning.unique

/-- A block that was just carved is allocated. -/
theorem Owning.carve {block : Carved} {others : Nat → Header} {requested : Nat}
    (new : ∀ old ∈ blocks, old.header config ≠ block.header config)
    (same : ∀ address, address ≠ block.header config → others address = headers address)
    (size : (others (block.header config)).size + kCacheLineSize = block.n)
    (enough : requested + kCacheLineSize ≤ block.n) :
    Owning config others maps (⟨block.header config, requested⟩ :: live) (insert block blocks) chains := by
  have kept := owning.write fun old member => same _ (new old member)
  have notChained : ∀ thread key, block.header config ∉ chains thread key := by
    intro thread key member
    obtain ⟨old, carved, here, -⟩ := owning.chained thread key _ member
    exact new old carved here
  refine ⟨?_, ?_, ?_, kept.linked, ?_, owning.chainOnce, ?_, owning.unique⟩
  · rintro other (rfl | old)
    · exact size
    · exact kept.size other old
  · intro used member
    rcases List.mem_cons.1 member with rfl | old
    · exact ⟨block, Set.mem_insert _ _, rfl, enough⟩
    · obtain ⟨carved, member, here⟩ := owning.allocated used old
      exact ⟨carved, Set.mem_insert_of_mem _ member, here⟩
  · refine List.nodup_cons.2 ⟨fun member => ?_, owning.liveOnce⟩
    obtain ⟨used, old, here⟩ := List.mem_map.1 member
    obtain ⟨carved, member, same, -⟩ := owning.allocated used old
    exact new carved member (same.trans here)
  · intro thread key header member
    obtain ⟨old, carved, here⟩ := owning.chained thread key header member
    exact ⟨old, Set.mem_insert_of_mem _ carved, here⟩
  · intro thread key header member isLive
    rcases List.mem_cons.1 isLive with rfl | old
    · exact notChained thread key member
    · exact owning.free thread key header member old

/-- The first block of a chain is allocated again. -/
theorem Owning.get {thread key requested : Nat} {list : BlockList} {others : Nat → Nat → Option BlockList}
    (found : maps thread key = some list) (some : list.head ≠ 0) (enough : requested ≤ key)
    (now : others thread key = .some
      (if list.head = list.tail then ⟨0, 0⟩ else ⟨(headers list.head).next, list.tail⟩))
    (same : ∀ otherThread otherKey, ¬ (otherThread = thread ∧ otherKey = key) →
      others otherThread otherKey = maps otherThread otherKey)
    (notNull : ∀ block ∈ blocks, block.header config ≠ 0) :
    Owning config headers others (⟨list.head, requested⟩ :: live) blocks
      (setChain chains thread key (chains thread key).tail) := by
  have ok := owning.linked thread key
  rw [found] at ok
  have links : Links headers list.tail list.head (chains thread key) := by
    exact (chainOk_links_iff some).1 ok
  have once := owning.chainOnce thread key
  obtain ⟨rest, split, behind⟩ := links.behind once
  have headMember : list.head ∈ chains thread key := links.head_mem
  rw [split] at once
  obtain ⟨absent, nodupRest⟩ := List.nodup_cons.1 once
  have inRest : ∀ {otherThread otherKey header},
      header ∈ setChain chains thread key (chains thread key).tail otherThread otherKey →
        header ∈ chains otherThread otherKey ∧ header ≠ list.head := by
    intro otherThread otherKey header member
    by_cases here : otherThread = thread ∧ otherKey = key
    · obtain ⟨rfl, rfl⟩ := here
      rw [setChain_self, split, List.tail_cons] at member
      refine ⟨by rw [split]; exact List.mem_cons_of_mem _ member, ?_⟩
      rintro rfl
      exact absent member
    · rw [setChain_of_ne here] at member
      refine ⟨member, ?_⟩
      rintro rfl
      exact here (owning.unique _ _ _ _ _ headMember member)
  refine ⟨owning.size, ?_, ?_, ?_, ?_, ?_, ?_, ?_⟩
  · intro used member
    rcases List.mem_cons.1 member with rfl | old
    · obtain ⟨block, carved, here, size⟩ := owning.chained thread key _ headMember
      refine ⟨block, carved, here, ?_⟩
      show requested + kCacheLineSize ≤ block.n
      omega
    · exact owning.allocated used old
  · exact List.nodup_cons.2 ⟨owning.free thread key _ headMember, owning.liveOnce⟩
  · intro otherThread otherKey
    by_cases here : otherThread = thread ∧ otherKey = key
    · obtain ⟨rfl, rfl⟩ := here
      rw [now, setChain_self, split, List.tail_cons]
      by_cases single : list.head = list.tail
      · rw [if_pos single] at behind ⊢
        exact (chainOk_empty_iff rfl).2 behind
      · rw [if_neg single] at behind ⊢
        refine (chainOk_links_iff ?_).2 behind
        · have nextMember : (headers list.head).next ∈ chains otherThread otherKey := by
            rw [split]
            exact List.mem_cons_of_mem _ behind.head_mem
          obtain ⟨block, carved, here, -⟩ := owning.chained _ _ _ nextMember
          rw [← here]
          exact notNull block carved
    · rw [same _ _ here, setChain_of_ne here]
      exact owning.linked _ _
  · intro otherThread otherKey header member
    exact owning.chained _ _ _ (inRest member).1
  · intro otherThread otherKey
    by_cases here : otherThread = thread ∧ otherKey = key
    · obtain ⟨rfl, rfl⟩ := here
      rw [setChain_self, split, List.tail_cons]
      exact nodupRest
    · rw [setChain_of_ne here]
      exact owning.chainOnce _ _
  · intro otherThread otherKey header member isLive
    obtain ⟨there, different⟩ := inRest member
    rcases List.mem_cons.1 isLive with same | old
    · exact different same
    · exact owning.free _ _ _ there old
  · intro oneThread oneKey twoThread twoKey header first second
    exact owning.unique _ _ _ _ _ (inRest first).1 (inRest second).1

/-- An allocated block goes to the end of a chain. -/
theorem Owning.put {thread key : Nat} {used : Block} (isLive : used ∈ live)
    (size : (headers used.header).size = key) {others : Nat → Header}
    {otherMaps : Nat → Nat → Option BlockList} {list : BlockList}
    (sizes : ∀ block ∈ blocks,
      (others (block.header config)).size = (headers (block.header config)).size)
    (kept : ∀ otherThread otherKey, ¬ (otherThread = thread ∧ otherKey = key) →
      ∀ header ∈ chains otherThread otherKey, others header = headers header)
    (now : otherMaps thread key = some list)
    (same : ∀ otherThread otherKey, ¬ (otherThread = thread ∧ otherKey = key) →
      otherMaps otherThread otherKey = maps otherThread otherKey)
    (notEmpty : list.head ≠ 0)
    (links : Links others list.tail list.head (chains thread key ++ [used.header])) :
    Owning config others otherMaps (live.erase used) blocks
      (setChain chains thread key (chains thread key ++ [used.header])) := by
  have isHeader : used.header ∈ live.map Block.header := List.mem_map_of_mem isLive
  have apart := ((List.perm_cons_erase isLive).map Block.header).nodup_iff.1 owning.liveOnce
  rw [List.map_cons, List.nodup_cons] at apart
  have member_cases : ∀ {otherThread otherKey header},
      header ∈ setChain chains thread key (chains thread key ++ [used.header]) otherThread otherKey →
        header ∈ chains otherThread otherKey ∨
          (otherThread = thread ∧ otherKey = key) ∧ header = used.header := by
    intro otherThread otherKey header member
    by_cases here : otherThread = thread ∧ otherKey = key
    · have both := here
      obtain ⟨rfl, rfl⟩ := here
      rw [setChain_self, List.mem_append, List.mem_singleton] at member
      exact member.imp id fun same => ⟨both, same⟩
    · rw [setChain_of_ne here] at member
      exact Or.inl member
  have erased : ∀ header, header ∈ (live.erase used).map Block.header → header ∈ live.map Block.header := by
    intro header member
    obtain ⟨other, there, rfl⟩ := List.mem_map.1 member
    exact List.mem_map_of_mem (List.mem_of_mem_erase there)
  refine ⟨?_, ?_, apart.2, ?_, ?_, ?_, ?_, ?_⟩
  · intro block member
    rw [sizes block member]
    exact owning.size block member
  · intro other member
    exact owning.allocated other (List.mem_of_mem_erase member)
  · intro otherThread otherKey
    by_cases here : otherThread = thread ∧ otherKey = key
    · obtain ⟨rfl, rfl⟩ := here
      rw [now, setChain_self]
      exact (chainOk_links_iff notEmpty).2 links
    · rw [same _ _ here, setChain_of_ne here]
      exact (owning.linked _ _).congr (kept _ _ here)
  · intro otherThread otherKey header member
    rcases member_cases member with old | ⟨⟨rfl, rfl⟩, rfl⟩
    · exact owning.chained _ _ _ old
    · obtain ⟨block, carved, here, -⟩ := owning.allocated used isLive
      refine ⟨block, carved, here, ?_⟩
      rw [← size, ← here]
      exact owning.size block carved
  · intro otherThread otherKey
    by_cases here : otherThread = thread ∧ otherKey = key
    · obtain ⟨rfl, rfl⟩ := here
      rw [setChain_self]
      refine List.nodup_append.2 ⟨owning.chainOnce _ _, List.nodup_singleton _, ?_⟩
      intro header member other new
      rw [List.mem_singleton.1 new]
      rintro rfl
      exact owning.free _ _ _ member isHeader
    · rw [setChain_of_ne here]
      exact owning.chainOnce _ _
  · intro otherThread otherKey header member there
    rcases member_cases member with old | ⟨-, rfl⟩
    · exact owning.free _ _ _ old (erased _ there)
    · exact apart.1 there
  · intro oneThread oneKey twoThread twoKey header first second
    rcases member_cases first with one | ⟨⟨rfl, rfl⟩, rfl⟩
    · rcases member_cases second with two | ⟨⟨rfl, rfl⟩, rfl⟩
      · exact owning.unique _ _ _ _ _ one two
      · exact absurd isHeader (owning.free _ _ _ one)
    · rcases member_cases second with two | ⟨here, -⟩
      · exact absurd isHeader (owning.free _ _ _ two)
      · exact here

end Owning

/-! ### The invariant -/

/-- What holds in every state. -/
structure Invariant (config : Config) (state : State) : Prop where
  held : ∃ places blocks chains,
    Carving config state.numaAllocated state.slabs places blocks ∧
      Owning config state.headers state.maps state.live blocks chains
  sizes : ∀ thread n requested, state.pc thread = .slab n requested →
    requested + kCacheLineSize ≤ n ∧ n < 2 ^ 64

theorem counter_start : 0 < kNumaMemorySize + kSlabSize := by decide

theorem invariant_start {state : State} (initial : (system config).initial state) :
    Invariant config state := by
  obtain ⟨counters, slabs, maps, pcs, live⟩ := initial
  refine ⟨⟨fun _ => none, ∅, fun _ _ => [], ?_, ?_⟩, ?_⟩
  · rw [counters, slabs]
    refine ⟨fun node inside => ⟨Nat.dvd_zero _, counter_start⟩, ?_, ?_, ?_, ?_, ?_, ?_, fun _ _ => rfl, ?_, ?_⟩
    · intro block member
      exact absurd member (Set.notMem_empty block)
    · intro block member
      exact absurd member (Set.notMem_empty block)
    · intro block member
      exact absurd member (Set.notMem_empty block)
    · intro block member
      exact absurd member (Set.notMem_empty block)
    · intro block member
      exact absurd member (Set.notMem_empty block)
    · intro block member
      exact absurd member (Set.notMem_empty block)
    · intro thread node number impossible
      cases impossible
    · intro thread other place impossible
      cases impossible
  · rw [maps, live]
    refine ⟨?_, ?_, List.nodup_nil, fun _ _ => rfl, ?_, fun _ _ => List.nodup_nil, ?_, ?_⟩
    · intro block member
      exact absurd member (Set.notMem_empty block)
    · intro used impossible
      cases impossible
    · intro thread key header impossible
      cases impossible
    · intro thread key header impossible
      cases impossible
    · intro thread key otherThread otherKey header impossible
      cases impossible
  · intro thread n requested there
    rw [pcs] at there
    cases there

/-- A state with the same memory and chains in which one thread is elsewhere. -/
theorem Invariant.goto (invariant : Invariant config state) (thread : Nat) {pc : Pc}
    (sizes : ∀ n requested, pc = .slab n requested → requested + kCacheLineSize ≤ n ∧ n < 2 ^ 64) :
    Invariant config (state.goto thread pc) := by
  refine ⟨invariant.held, fun other n requested there => ?_⟩
  have now : Function.update state.pc thread pc other = .slab n requested := there
  by_cases same : other = thread
  · subst same
    rw [Function.update_self] at now
    exact sizes n requested now
  · rw [Function.update_of_ne same] at now
    exact invariant.sizes other n requested now

/-! ### The steps -/

theorem roundUp_eq {nSize : Nat} (small : nSize + 2 * kCacheLineSize ≤ 2 ^ 64) :
    roundUp nSize = (nSize + 127) / 64 * 64 := by
  unfold roundUp kCacheLineSize at *
  rw [Nat.mod_eq_of_lt (by omega)]

theorem roundUp_bounds {nSize : Nat} (small : nSize + 2 * kCacheLineSize ≤ 2 ^ 64) :
    nSize + kCacheLineSize ≤ roundUp nSize ∧ roundUp nSize < 2 ^ 64 := by
  rw [roundUp_eq small]
  unfold kCacheLineSize at *
  omega

theorem dataSize_eq {n : Nat} (large : kCacheLineSize ≤ n) (small : n < 2 ^ 64) :
    dataSize n + kCacheLineSize = n := by
  unfold dataSize kCacheLineSize at *
  omega

theorem Invariant.allocate (invariant : Invariant config state) {thread nSize : Nat}
    (small : nSize + 2 * kCacheLineSize ≤ 2 ^ 64) :
    Invariant config (state.allocate thread nSize) := by
  obtain ⟨large, narrow⟩ := roundUp_bounds small
  have toSlab : Invariant config (state.goto thread (.slab (roundUp nSize) nSize)) := by
    refine invariant.goto thread fun n requested here => ?_
    cases here
    exact ⟨large, narrow⟩
  unfold State.allocate
  split
  · exact toSlab
  · rename_i list found
    split
    · exact toSlab
    · rename_i notEmpty
      obtain ⟨places, blocks, chains, carving, owning⟩ := invariant.held
      have size := dataSize_eq (Nat.le_trans (Nat.le_add_left _ _) large) narrow
      have enough : nSize ≤ dataSize (roundUp nSize) := by omega
      refine ⟨⟨places, blocks, _, carving, owning.get found notEmpty enough
        (setMap_maps_self _ _ _ _) (fun _ _ different => setMap_maps_of_ne _ _ different)
        fun block member => carving.header_pos member⟩, invariant.sizes⟩

/-- A slab that was taken before `LOG(FATAL)` is among the first 157. -/
theorem mapped_of_condition {number allocated n counter : Nat}
    (taken : (number + 1) * kSlabSize ≤ counter) (bound : counter < kNumaMemorySize + kSlabSize)
    (fits : allocated + n ≤ kSlabSize) (last : number = 156 → allocated + n ≤ 16 * MB) :
    number * kSlabSize + allocated + n ≤ kNumaMemorySize := by
  rw [kNumaMemorySize_eq] at *
  unfold kSlabSize MB at *
  omega

theorem Invariant.carve (invariant : Invariant config state) {thread node n requested : Nat}
    (there : state.pc thread = .slab n requested) (inside : node < config.nodes)
    (noOverflow : (state.slabs thread).allocated + n < 2 ^ 64)
    (lastSlab : ∀ node < config.nodes,
      (state.slabs thread).memory = config.numaMemory node + 156 * kSlabSize →
        (state.slabs thread).allocated + n ≤ kSlabSize → (state.slabs thread).allocated + n ≤ 16 * MB)
    (step : state.carve config thread node n requested = some after) : Invariant config after := by
  obtain ⟨places, blocks, chains, carving, owning⟩ := invariant.held
  obtain ⟨enough, narrow⟩ := invariant.sizes thread n requested there
  have large : kCacheLineSize ≤ n := Nat.le_trans (Nat.le_add_left _ _) enough
  unfold State.carve at step
  rw [Nat.mod_eq_of_lt noOverflow] at step
  split at step
  · rename_i fits
    cases step
    cases place : places thread with
    | none => exact absurd (carving.none thread place) fits.1
    | some position =>
      obtain ⟨slabNode, number⟩ := position
      obtain ⟨slabInside, memory, taken, -, -⟩ := carving.slab thread slabNode number place
      have mapped := mapped_of_condition taken (carving.counters slabNode slabInside).2 fits.2
        fun last => lastSlab slabNode slabInside (by rw [memory, last]) fits.2
      have carved := carving.carve place fits.2 large mapped
      have header : Carved.header config ⟨slabNode, number, (state.slabs thread).allocated, n⟩ =
          (state.slabs thread).memory + (state.slabs thread).allocated := by
        rw [memory]
        rfl
      have new : ∀ old ∈ blocks, old.header config ≠
          Carved.header config ⟨slabNode, number, (state.slabs thread).allocated, n⟩ := by
        intro old member same
        have equal := carved.header_injective (Set.mem_insert_of_mem _ member)
          (Set.mem_insert _ _) same
        have below := (carving.slab thread slabNode number place).2.2.2.2 old member
          (by rw [equal]) (by rw [equal])
        rw [equal] at below
        have nothing : (state.slabs thread).allocated + n ≤ (state.slabs thread).allocated := below
        have positive : 0 < n := Nat.lt_of_lt_of_le (by decide) large
        omega
      have idle : ∀ n requested, Pc.idle = .slab n requested →
          requested + kCacheLineSize ≤ n ∧ n < 2 ^ 64 := fun n requested impossible => by cases impossible
      refine ⟨⟨places, _, chains, carved, ?_⟩, (invariant.goto thread idle).sizes⟩
      have owned : Owning config (Function.update state.headers
          (Carved.header config ⟨slabNode, number, (state.slabs thread).allocated, n⟩) ⟨dataSize n, 0⟩)
          state.maps (⟨Carved.header config ⟨slabNode, number, (state.slabs thread).allocated, n⟩,
            requested⟩ :: state.live)
          (insert ⟨slabNode, number, (state.slabs thread).allocated, n⟩ blocks) chains := by
        refine owning.carve new (fun address different => Function.update_of_ne different _ _) ?_ enough
        rw [Function.update_self]
        exact dataSize_eq large narrow
      rw [header] at owned
      exact owned
  · split at step
    · cases step
    · rename_i room
      cases step
      have counter := (carving.counters node inside).2
      have wraps : (state.numaAllocated node + kSlabSize) % 2 ^ 64 = state.numaAllocated node + kSlabSize := by
        refine Nat.mod_eq_of_lt ?_
        unfold kNumaMemorySize kSlabSize MB at *
        omega
      rw [wraps]
      exact ⟨⟨_, blocks, chains, carving.newSlab inside (Nat.not_le.1 room), owning⟩, invariant.sizes⟩

theorem setHeader_headers_self (state : State) (address : Nat) (header : Header) :
    (state.setHeader address header).headers address = header := Function.update_self _ _ _

theorem setHeader_headers_of_ne (state : State) {address other : Nat} (header : Header)
    (different : other ≠ address) :
    (state.setHeader address header).headers other = state.headers other :=
  Function.update_of_ne different _ _

section Free

variable {thread header : Nat} {list : BlockList}

theorem free_of_none (found : state.maps thread (state.headers header).size = none) :
    state.free thread header =
      (state.setHeader header { state.headers header with next := 0 }).setMap thread
        (state.headers header).size ⟨header, header⟩ := by
  simp only [State.free, found]

theorem free_of_empty (found : state.maps thread (state.headers header).size = some list)
    (empty : list.head = 0) :
    state.free thread header =
      (state.setHeader header { state.headers header with next := 0 }).setMap thread
        (state.headers header).size ⟨header, header⟩ := by
  simp only [State.free, found, if_pos empty]

theorem free_of_some (found : state.maps thread (state.headers header).size = some list)
    (notEmpty : list.head ≠ 0) :
    state.free thread header =
      ((state.setHeader header { state.headers header with next := 0 }).setHeader list.tail
        { (state.setHeader header { state.headers header with next := 0 }).headers list.tail with
          next := header }).setMap thread (state.headers header).size ⟨list.head, header⟩ := by
  simp only [State.free, found, if_neg notEmpty]

end Free

theorem Invariant.free (invariant : Invariant config state) {thread : Nat} {used : Block}
    (isLive : used ∈ state.live) :
    Invariant config { state.free thread used.header with live := state.live.erase used } := by
  obtain ⟨places, blocks, chains, carving, owning⟩ := invariant.held
  obtain ⟨block, carved, here, -⟩ := owning.allocated used isLive
  have isHeader : used.header ∈ state.live.map Block.header := List.mem_map_of_mem isLive
  have notNull : used.header ≠ 0 := here ▸ carving.header_pos carved
  have notChained : ∀ {otherThread otherKey header}, header ∈ chains otherThread otherKey →
      header ≠ used.header := by
    rintro otherThread otherKey header member rfl
    exact owning.free _ _ _ member isHeader
  -- the block alone in its chain
  have alone : chains thread (state.headers used.header).size = [] →
      Owning config (Function.update state.headers used.header { state.headers used.header with next := 0 })
        (state.setMap thread (state.headers used.header).size ⟨used.header, used.header⟩).maps
        (state.live.erase used) blocks
        (setChain chains thread (state.headers used.header).size
          (chains thread (state.headers used.header).size ++ [used.header])) := by
    intro empty
    refine owning.put isLive rfl (fun block _ => ?_) (fun _ _ _ header member => ?_)
      (setMap_maps_self _ _ _ _) (fun _ _ different => setMap_maps_of_ne _ _ different) notNull ?_
    · by_cases same : block.header config = used.header
      · rw [same, Function.update_self]
      · rw [Function.update_of_ne same]
    · exact Function.update_of_ne (notChained member) _ _
    · rw [empty]
      exact .last
  have linked := owning.linked thread (state.headers used.header).size
  cases found : state.maps thread (state.headers used.header).size with
  | none =>
    rw [found] at linked
    rw [free_of_none found]
    exact ⟨⟨places, blocks, _, carving, alone linked⟩, invariant.sizes⟩
  | some list =>
    rw [found] at linked
    by_cases empty : list.head = 0
    · rw [free_of_empty found empty]
      exact ⟨⟨places, blocks, _, carving, alone ((chainOk_empty_iff empty).1 linked)⟩, invariant.sizes⟩
    · rw [free_of_some found empty]
      have links := (chainOk_links_iff empty).1 linked
      have tailMember := links.tail_mem
      have tailOther : list.tail ≠ used.header := notChained tailMember
      have notEmpty : (⟨list.head, used.header⟩ : BlockList).head ≠ 0 := empty
      refine ⟨⟨places, blocks, _, carving, owning.put isLive rfl
        (fun block _ => ?_) (fun _ _ different header member => ?_) (setMap_maps_self _ _ _ _)
        (fun _ _ different => setMap_maps_of_ne _ _ different) notEmpty ?_⟩, invariant.sizes⟩
      · have kept : ((state.setHeader used.header
            { state.headers used.header with next := 0 }).headers (block.header config)).size =
              (state.headers (block.header config)).size := by
          by_cases same : block.header config = used.header
          · rw [same, setHeader_headers_self]
          · rw [setHeader_headers_of_ne _ _ same]
        by_cases isTail : block.header config = list.tail
        · rw [← kept, isTail]
          refine Eq.trans (congrArg Header.size (setHeader_headers_self _ _ _)) ?_
          rfl
        · rw [← kept]
          exact congrArg Header.size (setHeader_headers_of_ne _ _ isTail)
      · have notTail : header ≠ list.tail := by
          rintro rfl
          exact different (owning.unique _ _ _ _ _ tailMember member)
        exact (setHeader_headers_of_ne _ _ notTail).trans
          (setHeader_headers_of_ne _ _ (notChained member))
      · refine links.append (owning.chainOnce _ _) (fun other member notTail => ?_) ?_
        · exact (setHeader_headers_of_ne _ _ notTail).trans
            (setHeader_headers_of_ne _ _ (notChained member))
        · refine Eq.trans (congrArg Header.next (setHeader_headers_self _ _ _)) ?_
          rfl

theorem Invariant.write (invariant : Invariant config state) {used : Block} (isLive : used ∈ state.live)
    {header : Nat} (content : Header)
    (inside : Overlap header kCacheLineSize (used.header + kCacheLineSize)
      (state.headers used.header).size) :
    Invariant config (state.setHeader header content) := by
  obtain ⟨places, blocks, chains, carving, owning⟩ := invariant.held
  refine ⟨⟨places, blocks, chains, carving, owning.write fun block member => ?_⟩, invariant.sizes⟩
  refine Function.update_of_ne ?_ _ _
  rintro rfl
  obtain ⟨own, carved, here, -⟩ := owning.allocated used isLive
  have size := owning.size own carved
  have large := carving.size block member
  rw [here] at size
  obtain ⟨before, behind⟩ := inside
  by_cases same : block = own
  · rw [same, here] at behind
    exact Nat.lt_irrefl _ behind
  · refine carving.not_overlap member carved same ⟨?_, ?_⟩
    · rw [here]
      omega
    · rw [here]
      omega

theorem Invariant.step {action : Action} (invariant : Invariant config state)
    (allowed : Condition config state action) (step : next config state action = some after) :
    Invariant config after := by
  cases action with
  | allocate thread nSize =>
    simp only [next, Option.ite_none_right_eq_some, Option.some.injEq] at step
    obtain ⟨-, rfl⟩ := step
    exact invariant.allocate allowed
  | carve thread node =>
    simp only [next, Option.ite_none_right_eq_some] at step
    obtain ⟨inside, step⟩ := step
    cases there : state.pc thread with
    | idle =>
      rw [there] at step
      cases step
    | slab n requested =>
      rw [there] at step
      simp only [Condition, there, CarveFits] at allowed
      exact invariant.carve there inside allowed.1 allowed.2 step
  | free thread used =>
    simp only [next, Option.ite_none_right_eq_some, Option.some.injEq] at step
    obtain ⟨⟨-, isLive⟩, rfl⟩ := step
    exact invariant.free isLive
  | write used header content =>
    simp only [next, Option.ite_none_right_eq_some, Option.some.injEq] at step
    obtain ⟨⟨isLive, inside⟩, rfl⟩ := step
    exact invariant.write isLive content inside

/-! ### Soundness -/

theorem Invariant.sound (invariant : Invariant config state) : Sound config state := by
  obtain ⟨places, blocks, chains, carving, owning⟩ := invariant.held
  have blockOf : ∀ used ∈ state.live, ∃ block ∈ blocks, block.header config = used.header ∧
      state.blockSize used.header = block.n ∧ used.requested + kCacheLineSize ≤ block.n := by
    intro used member
    obtain ⟨block, carved, here, enough⟩ := owning.allocated used member
    have size := owning.size block carved
    refine ⟨block, carved, here, ?_, enough⟩
    rw [State.blockSize, ← here]
    omega
  refine ⟨?_, ?_, ?_, ?_⟩
  · intro used member
    obtain ⟨block, carved, here, size, -⟩ := blockOf used member
    have inside := carving.inside carved
    rw [here] at inside
    rw [size]
    exact ⟨block.node, carving.node block carved, inside⟩
  · intro used member
    obtain ⟨block, carved, here, size, enough⟩ := blockOf used member
    rw [State.blockSize] at size
    omega
  · have once : state.live.Pairwise fun one two => one.header ≠ two.header :=
      List.pairwise_map.1 owning.liveOnce
    refine once.imp_of_mem fun {one two} first second different => ?_
    obtain ⟨oneBlock, oneCarved, oneHere, oneSize, -⟩ := blockOf one first
    obtain ⟨twoBlock, twoCarved, twoHere, twoSize, -⟩ := blockOf two second
    rw [oneSize, twoSize, ← oneHere, ← twoHere]
    refine carving.not_overlap oneCarved twoCarved ?_
    rintro rfl
    exact different (oneHere.symm.trans twoHere)
  · rintro used member header ⟨thread, key, list, found, notEmpty, inChain⟩ ⟨before, behind⟩
    have linked := owning.linked thread key
    rw [found] at linked
    have chained := ((chainOk_links_iff notEmpty).1 linked).mem_of_inChain inChain
    obtain ⟨block, carved, here, size, -⟩ := blockOf used member
    obtain ⟨other, otherCarved, rfl, -⟩ := owning.chained thread key header chained
    have large := carving.size other otherCarved
    rw [size, ← here] at behind
    rw [← here] at before
    refine carving.not_overlap carved otherCarved ?_ ⟨by omega, behind⟩
    rintro rfl
    exact owning.free thread key _ chained (here ▸ List.mem_map_of_mem member)

/-- In every run in which the sizes stay below 64 bits and no block is carved from the unmapped part of
the last slab of a node, the allocator is sound in every state. -/
theorem sound_of_run (run : Run (system config)) (meets : run.Meets (Condition config)) (index : Nat)
    (inside : index ≤ run.length) : Sound config (run.state index) :=
  (run.invariant meets (fun _ initial => invariant_start initial)
    (fun _ _ _ invariant allowed step => invariant.step allowed step) index inside).sound

/-! ### Runs -/

section Single

variable (node other : Nat)

theorem single_positive (_ : node < 1) : 0 < 1073741824 := by decide

theorem single_fits (_ : node < 1) : 1073741824 + kNumaMemorySize ≤ 2 ^ 64 := by decide

theorem single_disjoint (one : node < 1) (two : other < 1) (different : node ≠ other) :
    1073741824 + kNumaMemorySize ≤ 1073741824 ∨ 1073741824 + kNumaMemorySize ≤ 1073741824 := by
  omega

end Single

/-- One node. -/
def Config.single : Config where
  nodes := 1
  numaMemory _ := 1073741824
  positive := single_positive
  fits := single_fits
  disjoint := single_disjoint

instance : Inhabited Action := ⟨.carve 0 0⟩

/-- Thread 0 allocates a block, thread 1 frees it and allocates it again with another size. -/
def passedOn : List Action :=
  [.allocate 0 100, .carve 0 0, .carve 0 0, .free 1 ⟨1073741824, 100⟩, .allocate 1 90]

theorem sound_of_run_passedOn : ∃ run : Run (system .single),
    run.Meets (Condition .single) ∧ (run.state 5).live = [⟨1073741824, 90⟩] ∧
      Sound .single (run.state 5) := by
  obtain ⟨run, length, states, actions⟩ :=
    exists_run_of_next Initial (next .single) ⟨rfl, rfl, rfl, rfl, rfl⟩ passedOn (by decide +kernel)
  have meets : run.Meets (Condition .single) := by
    intro index inside
    rw [actions]
    exact of_decide_eq_true (test_of_replayTests (fun state action => Condition .single state action)
      (by decide +kernel) (length ▸ inside) (states index))
  refine ⟨run, meets, ?_, sound_of_run run meets 5 (Nat.le_of_eq length.symm)⟩
  exact satisfies_of_replay (fun state => state.live = [⟨1073741824, 90⟩]) (states 5) (by decide +kernel)

/-- 156 threads take a slab each, and one more thread fills the next one. -/
def allSlabs : List Action :=
  (List.range 156).flatMap (fun thread => [Action.allocate thread 0, Action.carve thread 0]) ++
    [Action.allocate 156 67108800, Action.carve 156 0, Action.carve 156 0]

set_option maxRecDepth 10000 in
/-- The last slab starts 16 MB before the end of the memory of the node, and the block that fills it goes
48 MB beyond that end. -/
theorem exists_not_sound : ∃ run : Run (system .single), ¬ Sound .single (run.state 315) := by
  obtain ⟨run, length, states, actions⟩ :=
    exists_run_of_next Initial (next .single) ⟨rfl, rfl, rfl, rfl, rfl⟩ allSlabs (by decide +kernel)
  refine ⟨run, fun sound => ?_⟩
  have found := satisfies_of_replay (fun state =>
    (⟨1073741824 + 156 * kSlabSize, 67108800⟩ ∈ state.live) ∧
      state.blockSize (1073741824 + 156 * kSlabSize) = kSlabSize) (states 315) (by decide +kernel)
  obtain ⟨node, -, -, inside⟩ := sound.inside _ found.1
  have beyond : 1073741824 + 156 * kSlabSize + (run.state 315).blockSize (1073741824 + 156 * kSlabSize) ≤
      1073741824 + kNumaMemorySize := inside
  rw [found.2] at beyond
  exact absurd beyond (by decide)

end Pmwcas.TlsAllocator
