/-
This file is about the two images of the shared segment, the one that the threads see and the one in
NVM. Both hold the same queue at any time, and they agree on where each busy node is: in the queue or
in one cell of one thread. What a store, a flush and an operation of `enq()` and `deq()` do to the
images keeps that, so that a crash finds a segment that can be gone on with.
-/

import Pmwcas.MSQueueByPMWCasSound
import Pmwcas.MSQueueTest

namespace Pmwcas.MSQueueTest

open Transition MSQueueByPMWCas LinkedList

/-! ### Cells and images -/

/-- A cell of a thread, for `enq()` or for `deq()`. -/
inductive Cell
  | enq (thread : Nat)
  | deq (thread : Nat)
deriving DecidableEq

def Cell.address : Cell → Address
  | .enq thread => .enqCell thread
  | .deq thread => .deqCell thread

def Cell.thread : Cell → Nat
  | .enq thread => thread
  | .deq thread => thread

/-- What is in a cell. -/
def Image.cell (image : Image) (cell : Cell) : Option Nat :=
  image.memory cell.address

def Image.Busy (image : Image) (node : Nat) : Prop :=
  (image.nodes node).isBusy = 1

instance (image : Image) (node : Nat) : Decidable (image.Busy node) :=
  inferInstanceAs (Decidable ((image.nodes node).isBusy = 1))

def Image.nextOf (image : Image) (node : Nat) : Option Nat :=
  image.memory (.next node)

/-- The node has not left the queue. -/
def Live (queue : Queue Nat) (node : Nat) : Prop :=
  ∃ index, queue.head ≤ index ∧ queue.order[index]? = some node

theorem Live.mem {queue : Queue Nat} {node : Nat} (live : Live queue node) : node ∈ queue.order := by
  obtain ⟨index, -, here⟩ := live
  exact mem_of_index here

/-- The node is in the cell of one of the images. -/
def In (current persisted : Image) (cell : Cell) (node : Nat) : Prop :=
  current.cell cell = some node ∨ persisted.cell cell = some node

/-- What the two images have in common. -/
structure Consistent (current persisted : Image) (queue : Queue Nat) : Prop where
  linked : Linked current.nextOf queue.order
  linkedPersisted : Linked persisted.nextOf queue.order
  head : current.memory .head = queue.order[queue.head]?
  headPersisted : persisted.memory .head = queue.order[queue.head]?
  busy : ∀ node, Live queue node → current.Busy node ∧ persisted.Busy node
  held : ∀ node, current.Busy node ∨ persisted.Busy node →
    Live queue node ∨ ∃ cell, current.cell cell = some node ∧ persisted.cell cell = some node
  alone : ∀ thread node, In current persisted (.enq thread) node →
    (current.Busy node → current.nextOf node = none) ∧
      (persisted.Busy node → persisted.nextOf node = none)
  cells : ∀ one two node, In current persisted one node → In current persisted two node → one = two
  notLive : ∀ cell node, In current persisted cell node → ¬ Live queue node
  notLinked : ∀ thread node, In current persisted (.enq thread) node → node ∉ queue.order
  announced : ∀ thread node, In current persisted (.enq thread) node →
    persisted.Busy node → current.Busy node
  taken : ∀ thread node, In current persisted (.deq thread) node →
    current.Busy node → persisted.Busy node

/-! ### Words that get into NVM -/

section WriteBack

variable {current persisted : Image} {lines : List Line}

theorem Image.writeBack_word (persisted current : Image) (lines : List Line) (address : Address) :
    (persisted.writeBack current lines).memory address = current.memory address ∨
      (persisted.writeBack current lines).memory address = persisted.memory address := by
  unfold Image.writeBack
  by_cases inside : lineOf address ∈ lines
  · exact .inl (if_pos inside)
  · exact .inr (if_neg inside)

/-- The fields and the link of a node get into NVM together. -/
theorem Image.writeBack_node (persisted current : Image) (lines : List Line) (node : Nat) :
    ((persisted.writeBack current lines).nextOf node = current.nextOf node ∧
      (persisted.writeBack current lines).nodes node = current.nodes node) ∨
    (persisted.writeBack current lines).nextOf node = persisted.nextOf node ∧
      (persisted.writeBack current lines).nodes node = persisted.nodes node := by
  unfold Image.writeBack Image.nextOf
  by_cases inside : Line.node node ∈ lines
  · exact .inl ⟨if_pos inside, if_pos inside⟩
  · exact .inr ⟨if_neg inside, if_neg inside⟩

theorem Image.writeBack_of_mem {address : Address} (inside : lineOf address ∈ lines) :
    (persisted.writeBack current lines).memory address = current.memory address :=
  if_pos inside

theorem Image.writeBack_of_not_mem {address : Address} (outside : lineOf address ∉ lines) :
    (persisted.writeBack current lines).memory address = persisted.memory address :=
  if_neg outside

theorem Image.Busy.congr {image image' : Image} {node : Nat}
    (same : image'.nodes node = image.nodes node) : image'.Busy node ↔ image.Busy node := by
  unfold Image.Busy
  rw [same]

theorem Image.writeBack_busy_of_mem {node : Nat} (inside : Line.node node ∈ lines) :
    (persisted.writeBack current lines).Busy node ↔ current.Busy node :=
  Image.Busy.congr (if_pos inside)

theorem Image.writeBack_busy_of_not_mem {node : Nat} (outside : Line.node node ∉ lines) :
    (persisted.writeBack current lines).Busy node ↔ persisted.Busy node :=
  Image.Busy.congr (if_neg outside)

theorem Image.writeBack_busy {node : Nat}
    (busy : (persisted.writeBack current lines).Busy node) :
    current.Busy node ∨ persisted.Busy node := by
  rcases persisted.writeBack_node current lines node with ⟨-, same⟩ | ⟨-, same⟩
  · exact .inl ((Image.Busy.congr same).1 busy)
  · exact .inr ((Image.Busy.congr same).1 busy)

theorem In.of_writeBack {cell : Cell} {node : Nat}
    (here : In current (persisted.writeBack current lines) cell node) : In current persisted cell node := by
  rcases here with here | here
  · exact .inl here
  · rcases persisted.writeBack_word current lines cell.address with same | same
    · exact .inl (same.symm.trans here)
    · exact .inr (same.symm.trans here)

/-- Lines may get into NVM at any time. -/
theorem Consistent.writeBack {queue : Queue Nat} (consistent : Consistent current persisted queue)
    (lines : List Line) : Consistent current (persisted.writeBack current lines) queue := by
  have inside : ∀ {cell node}, In current (persisted.writeBack current lines) cell node →
      In current persisted cell node := In.of_writeBack
  refine
    { linked := consistent.linked
      linkedPersisted := ?_
      head := consistent.head
      headPersisted := ?_
      busy := fun node live => ?_
      held := fun node busy => ?_
      alone := fun thread node here => ?_
      cells := fun one two node first second => consistent.cells one two node (inside first) (inside second)
      notLive := fun cell node here => consistent.notLive cell node (inside here)
      notLinked := fun thread node here => consistent.notLinked thread node (inside here)
      announced := fun thread node here busy => ?_
      taken := fun thread node here busy => ?_ }
  · refine ⟨consistent.linked.nodup, fun index node here => ?_⟩
    rcases persisted.writeBack_node current lines node with ⟨same, -⟩ | ⟨same, -⟩
    · exact same.trans (consistent.linked.next index node here)
    · exact same.trans (consistent.linkedPersisted.next index node here)
  · rcases persisted.writeBack_word current lines .head with same | same
    · exact same.trans consistent.head
    · exact same.trans consistent.headPersisted
  · obtain ⟨busy, busyPersisted⟩ := consistent.busy node live
    refine ⟨busy, ?_⟩
    rcases persisted.writeBack_node current lines node with ⟨-, same⟩ | ⟨-, same⟩
    · exact (Image.Busy.congr same).2 busy
    · exact (Image.Busy.congr same).2 busyPersisted
  · rcases consistent.held node (busy.elim .inl Image.writeBack_busy) with live | ⟨cell, here, there⟩
    · exact .inl live
    · refine .inr ⟨cell, here, ?_⟩
      rcases persisted.writeBack_word current lines cell.address with same | same
      · exact same.trans here
      · exact same.trans there
  · obtain ⟨alone, alonePersisted⟩ := consistent.alone thread node (inside here)
    refine ⟨alone, fun busy => ?_⟩
    rcases persisted.writeBack_node current lines node with ⟨next, same⟩ | ⟨next, same⟩
    · exact next.trans (alone ((Image.Busy.congr same).1 busy))
    · exact next.trans (alonePersisted ((Image.Busy.congr same).1 busy))
  · rcases persisted.writeBack_node current lines node with ⟨-, same⟩ | ⟨-, same⟩
    · exact (Image.Busy.congr same).1 busy
    · exact consistent.announced thread node (inside here) ((Image.Busy.congr same).1 busy)
  · rcases persisted.writeBack_node current lines node with ⟨-, same⟩ | ⟨-, same⟩
    · exact (Image.Busy.congr same).2 busy
    · exact (Image.Busy.congr same).2 (consistent.taken thread node (inside here) busy)

end WriteBack

/-! ### Stores -/

theorem Cell.address_injective {one two : Cell} (same : one.address = two.address) : one = two := by
  cases one with
  | enq =>
    cases two with
    | enq => cases same; rfl
    | deq => cases same
  | deq =>
    cases two with
    | enq => cases same
    | deq => cases same; rfl

theorem Cell.address_ne_next (cell : Cell) (node : Nat) : Address.next node ≠ cell.address := by
  cases cell with
  | enq | deq => exact nofun

theorem Cell.address_ne_head (cell : Cell) : Address.head ≠ cell.address := by
  cases cell with
  | enq | deq => exact nofun

theorem Cell.address_ne_tail (cell : Cell) : Address.tail ≠ cell.address := by
  cases cell with
  | enq | deq => exact nofun

section Stores

variable {current persisted : Image} {queue : Queue Nat} {cell : Cell}

theorem Image.write_cell_self (image : Image) (cell : Cell) (value : Option Nat) :
    (image.write cell.address value).cell cell = value :=
  Memory.write_self _ _ _

theorem Image.write_cell_of_ne (image : Image) {cell other : Cell} (different : other ≠ cell)
    (value : Option Nat) : (image.write cell.address value).cell other = image.cell other :=
  Memory.write_of_ne _ (fun same => different (Cell.address_injective same)) _

theorem Image.write_cell_nextOf (image : Image) (cell : Cell) (value : Option Nat) (node : Nat) :
    (image.write cell.address value).nextOf node = image.nextOf node :=
  Memory.write_of_ne _ (cell.address_ne_next node) _

theorem Image.write_cell_head (image : Image) (cell : Cell) (value : Option Nat) :
    (image.write cell.address value).memory .head = image.memory .head :=
  Memory.write_of_ne _ cell.address_ne_head _

theorem Image.write_cell_tail (image : Image) (cell : Cell) (value : Option Nat) :
    (image.write cell.address value).memory .tail = image.memory .tail :=
  Memory.write_of_ne _ cell.address_ne_tail _

/-- What is in the cell is not busy. -/
def Quiet (current persisted : Image) (cell : Cell) : Prop :=
  ∀ node, In current persisted cell node → ¬ current.Busy node ∧ ¬ persisted.Busy node

/-- A node that is in no place yet. -/
structure Unplaced (current persisted : Image) (queue : Queue Nat) (node : Nat) : Prop where
  notBusy : ¬ current.Busy node
  notPersisted : ¬ persisted.Busy node
  notLinked : node ∉ queue.order
  cells : ∀ cell, ¬ In current persisted cell node

/-- What is in a cell after a store was there before or is new. -/
theorem In.of_write {value : Option Nat} {other : Cell} {node : Nat}
    (here : In (current.write cell.address value) persisted other node) :
    other = cell ∧ value = some node ∨ In current persisted other node := by
  rcases here with here | here
  · by_cases same : other = cell
    · rw [same, Image.write_cell_self] at here
      exact .inl ⟨same, here⟩
    · rw [Image.write_cell_of_ne _ same] at here
      exact .inr (.inl here)
  · exact .inr (.inr here)

/-- A store of a new node or of `NULL` to a cell in which no node is busy. -/
theorem Consistent.storeCell (consistent : Consistent current persisted queue)
    (quiet : Quiet current persisted cell) {value : Option Nat}
    (new : ∀ node, value = some node → Unplaced current persisted queue node) :
    Consistent (current.write cell.address value) persisted queue := by
  have next : (current.write cell.address value).nextOf = current.nextOf := by
    funext node
    exact current.write_cell_nextOf cell value node
  refine
    { linked := next ▸ consistent.linked
      linkedPersisted := consistent.linkedPersisted
      head := (current.write_cell_head cell value).trans consistent.head
      headPersisted := consistent.headPersisted
      busy := consistent.busy
      held := fun node busy => ?_
      alone := fun thread node here => ?_
      cells := fun one two node first second => ?_
      notLive := fun other node here => ?_
      notLinked := fun thread node here => ?_
      announced := fun thread node here busy => ?_
      taken := fun thread node here busy => ?_ }
  · rcases consistent.held node busy with live | ⟨other, here, there⟩
    · exact .inl live
    · have different : other ≠ cell := by
        rintro rfl
        obtain ⟨notBusy, notPersisted⟩ := quiet node (.inl here)
        exact busy.elim notBusy notPersisted
      exact .inr ⟨other, (current.write_cell_of_ne different value).trans here, there⟩
  · rcases here.of_write with ⟨-, same⟩ | before
    · have fresh := new node same
      exact ⟨fun busy => absurd busy fresh.notBusy, fun busy => absurd busy fresh.notPersisted⟩
    · rw [next]
      exact consistent.alone thread node before
  · rcases first.of_write with ⟨rfl, same⟩ | before
    · rcases second.of_write with ⟨rfl, -⟩ | after
      · rfl
      · exact absurd after ((new node same).cells two)
    · rcases second.of_write with ⟨-, same⟩ | after
      · exact absurd before ((new node same).cells one)
      · exact consistent.cells one two node before after
  · rcases here.of_write with ⟨-, same⟩ | before
    · exact fun live => (new node same).notLinked live.mem
    · exact consistent.notLive other node before
  · rcases here.of_write with ⟨-, same⟩ | before
    · exact (new node same).notLinked
    · exact consistent.notLinked thread node before
  · rcases here.of_write with ⟨-, same⟩ | before
    · exact absurd busy (new node same).notPersisted
    · exact consistent.announced thread node before busy
  · rcases here.of_write with ⟨-, same⟩ | before
    · exact absurd busy (new node same).notBusy
    · exact consistent.taken thread node before busy

/-- `next_` of a node that is not linked is reset. -/
theorem Consistent.storeNext (consistent : Consistent current persisted queue) {node : Nat}
    (new : node ∉ queue.order) : Consistent (current.write (.next node) none) persisted queue := by
  have cells : ∀ cell, (current.write (.next node) none).cell cell = current.cell cell :=
    fun cell => Memory.write_of_ne _ (cell.address_ne_next node).symm _
  have inside : ∀ {cell other}, In (current.write (.next node) none) persisted cell other →
      In current persisted cell other := by
    intro cell other here
    rcases here with here | here
    · exact .inl ((cells cell).symm.trans here)
    · exact .inr here
  have kept : ∀ other, other ≠ node →
      (current.write (.next node) none).nextOf other = current.nextOf other := by
    intro other different
    exact Memory.write_of_ne _ (by simp [different]) _
  have head : (current.write (.next node) none).memory .head = current.memory .head :=
    current.memory.write_of_ne (show Address.head ≠ .next node from nofun) none
  refine
    { linked := consistent.linked.congr fun other member => kept other (fun same => new (same ▸ member))
      linkedPersisted := consistent.linkedPersisted
      head := head.trans consistent.head
      headPersisted := consistent.headPersisted
      busy := consistent.busy
      held := fun other busy => ?_
      alone := fun thread other here => ⟨fun busy => ?_, (consistent.alone thread other (inside here)).2⟩
      cells := fun one two other first second =>
        consistent.cells one two other (inside first) (inside second)
      notLive := fun cell other here => consistent.notLive cell other (inside here)
      notLinked := fun thread other here => consistent.notLinked thread other (inside here)
      announced := fun thread other here => consistent.announced thread other (inside here)
      taken := fun thread other here => consistent.taken thread other (inside here) }
  · rcases consistent.held other busy with live | ⟨cell, here, there⟩
    · exact .inl live
    · exact .inr ⟨cell, (cells cell).trans here, there⟩
  · by_cases same : other = node
    · rw [same]
      exact Memory.write_self _ _ _
    · exact (kept other same).trans ((consistent.alone thread other (inside here)).1 busy)

theorem Image.setNode_busy_self (image : Image) (node : Nat) (fields : Fields) :
    (image.setNode node fields).Busy node ↔ fields.isBusy = 1 := by
  have same : (image.setNode node fields).nodes node = fields := Function.update_self _ _ _
  unfold Image.Busy
  rw [same]

theorem Image.setNode_busy_of_ne (image : Image) {node other : Nat} (different : other ≠ node)
    (fields : Fields) : (image.setNode node fields).Busy other ↔ image.Busy other :=
  Image.Busy.congr (Function.update_of_ne different _ _)

/-- What a store to a field of a node in a cell has to leave. -/
structure Stores (current persisted : Image) (cell : Cell) (node : Nat) (busy : Prop) : Prop where
  here : current.cell cell = some node
  held : busy → persisted.cell cell = some node
  alone : busy → current.nextOf node = none
  announced : ∀ thread, cell = .enq thread → persisted.Busy node → busy
  taken : ∀ thread, cell = .deq thread → busy → persisted.Busy node

/-- A store to a field of a node that is in a cell. -/
theorem Consistent.setNode (consistent : Consistent current persisted queue) {node : Nat}
    {fields : Fields} (stores : Stores current persisted cell node (fields.isBusy = 1)) :
    Consistent (current.setNode node fields) persisted queue := by
  have placed : In current persisted cell node := .inl stores.here
  have cases : ∀ other, (current.setNode node fields).Busy other →
      other = node ∧ fields.isBusy = 1 ∨ other ≠ node ∧ current.Busy other := by
    intro other busy
    by_cases same : other = node
    · subst same
      exact .inl ⟨rfl, (current.setNode_busy_self other fields).1 busy⟩
    · exact .inr ⟨same, (current.setNode_busy_of_ne same fields).1 busy⟩
  have inCell : ∀ {other}, In current persisted other node → other = cell :=
    fun here => consistent.cells _ _ node here placed
  refine
    { linked := consistent.linked
      linkedPersisted := consistent.linkedPersisted
      head := consistent.head
      headPersisted := consistent.headPersisted
      busy := fun other live => ⟨?_, (consistent.busy other live).2⟩
      held := fun other busy => ?_
      alone := fun thread other here => ⟨fun busy => ?_, (consistent.alone thread other here).2⟩
      cells := consistent.cells
      notLive := consistent.notLive
      notLinked := consistent.notLinked
      announced := fun thread other here busy => ?_
      taken := fun thread other here busy => ?_ }
  · have different : other ≠ node := by
      rintro rfl
      exact consistent.notLive cell other placed live
    exact (current.setNode_busy_of_ne different fields).2 (consistent.busy other live).1
  · rcases busy with busy | busy
    · rcases cases other busy with ⟨rfl, sets⟩ | ⟨-, before⟩
      · exact .inr ⟨cell, stores.here, stores.held sets⟩
      · exact consistent.held other (.inl before)
    · exact consistent.held other (.inr busy)
  · rcases cases other busy with ⟨rfl, sets⟩ | ⟨-, before⟩
    · exact stores.alone sets
    · exact (consistent.alone thread other here).1 before
  · by_cases same : other = node
    · subst same
      exact (current.setNode_busy_self other fields).2 (stores.announced thread (inCell here).symm busy)
    · exact (current.setNode_busy_of_ne same fields).2 (consistent.announced thread other here busy)
  · rcases cases other busy with ⟨rfl, sets⟩ | ⟨-, before⟩
    · exact stores.taken thread (inCell here).symm sets
    · exact consistent.taken thread other here before

end Stores

/-! ### A node is linked, a node is taken -/

/-- The image after `newNode` is linked behind `last` and has left the cell of the thread. -/
structure Links (before after : Image) (thread last newNode : Nat) : Prop where
  next : ∀ node, after.nextOf node = Function.update before.nextOf last (some newNode) node
  head : after.memory .head = before.memory .head
  cell : ∀ cell, after.cell cell = if cell = .enq thread then none else before.cell cell
  busy : ∀ node, node ≠ last → (after.Busy node ↔ before.Busy node)

/-- The image after the head has moved from `first` on and this is in the cell of the thread. -/
structure Takes (before after : Image) (thread first : Nat) (following : Option Nat) : Prop where
  next : ∀ node, after.nextOf node = before.nextOf node
  head : after.memory .head = following
  cell : ∀ cell, after.cell cell = if cell = .deq thread then some first else before.cell cell
  busy : ∀ node, after.Busy node ↔ before.Busy node

section Operations

variable {current current' persisted persisted' : Image} {queue : Queue Nat} {thread : Nat}

theorem live_append {node other : Nat} (live : Live { queue with order := queue.order ++ [node] } other) :
    Live queue other ∨ other = node := by
  obtain ⟨index, after, here⟩ := live
  rcases index_append_singleton here with earlier | ⟨-, same⟩
  · exact .inl ⟨index, after, earlier⟩
  · exact .inr same

theorem Live.append {other : Nat} (live : Live queue other) (node : Nat) :
    Live { queue with order := queue.order ++ [node] } other := by
  obtain ⟨index, after, here⟩ := live
  exact ⟨index, after, index_append here _⟩

theorem Links.cell_of_some {before after : Image} {last newNode : Nat}
    (links : Links before after thread last newNode) {cell : Cell} {node : Nat}
    (here : after.cell cell = some node) : cell ≠ .enq thread ∧ before.cell cell = some node := by
  rw [links.cell cell] at here
  by_cases same : cell = .enq thread
  · rw [if_pos same] at here
    cases here
  · rw [if_neg same] at here
    exact ⟨same, here⟩

/-- `newNode` has been announced; it is the last one in both images. -/
theorem Consistent.link (consistent : Consistent current persisted queue) {last newNode index : Nat}
    (here : queue.order[index]? = some last) (after : queue.head ≤ index)
    (end_ : current.nextOf last = none) (cell : current.cell (.enq thread) = some newNode)
    (busy : current.Busy newNode) (busyPersisted : persisted.Busy newNode)
    (links : Links current current' thread last newNode)
    (linksPersisted : Links persisted persisted' thread last newNode)
    (busyLast : current'.Busy last ∧ persisted'.Busy last) :
    Consistent current' persisted' { queue with order := queue.order ++ [newNode] } := by
  have placed : In current persisted (.enq thread) newNode := .inl cell
  have new := consistent.notLinked thread newNode placed
  obtain ⟨alone, alonePersisted⟩ := consistent.alone thread newNode placed
  have liveLast : Live queue last := ⟨index, after, here⟩
  have endPersisted : persisted.nextOf last = none := by
    rw [consistent.linkedPersisted.next index last here, ← consistent.linked.next index last here, end_]
  have inside : ∀ {other node}, In current' persisted' other node →
      other ≠ .enq thread ∧ In current persisted other node := by
    intro other node there
    rcases there with there | there
    · obtain ⟨different, before⟩ := links.cell_of_some there
      exact ⟨different, .inl before⟩
    · obtain ⟨different, before⟩ := linksPersisted.cell_of_some there
      exact ⟨different, .inr before⟩
  have notNew : ∀ {other node}, In current' persisted' other node → node ≠ newNode := by
    rintro other node there rfl
    obtain ⟨different, before⟩ := inside there
    exact different (consistent.cells _ _ node before placed)
  have notLast : ∀ {other node}, In current' persisted' other node → node ≠ last := by
    rintro other node there rfl
    exact consistent.notLive other node (inside there).2 liveLast
  have keptNext : ∀ node, node ≠ last → current'.nextOf node = current.nextOf node := by
    intro node different
    rw [links.next, Function.update_of_ne different]
  have keptNextPersisted : ∀ node, node ≠ last → persisted'.nextOf node = persisted.nextOf node := by
    intro node different
    rw [linksPersisted.next, Function.update_of_ne different]
  have inOrder : queue.head < queue.order.length := Nat.lt_of_le_of_lt after (index_lt here)
  refine
    { linked := (consistent.linked.append here end_ new (alone busy)).congr fun node _ => links.next node
      linkedPersisted := (consistent.linkedPersisted.append here endPersisted new
        (alonePersisted busyPersisted)).congr fun node _ => linksPersisted.next node
      head := ?_
      headPersisted := ?_
      busy := fun node live => ?_
      held := fun node busy => ?_
      alone := fun other node there => ?_
      cells := fun one two node first second =>
        consistent.cells one two node (inside first).2 (inside second).2
      notLive := fun other node there live => ?_
      notLinked := fun other node there => ?_
      announced := fun other node there busy => ?_
      taken := fun other node there busy => ?_ }
  · rw [links.head, consistent.head]
    exact (List.getElem?_append_left inOrder).symm
  · rw [linksPersisted.head, consistent.headPersisted]
    exact (List.getElem?_append_left inOrder).symm
  · by_cases same : node = last
    · rw [same]
      exact busyLast
    · rw [links.busy node same, linksPersisted.busy node same]
      rcases live_append live with before | rfl
      · exact consistent.busy node before
      · exact ⟨busy, busyPersisted⟩
  · by_cases same : node = last
    · rw [same]
      exact .inl (liveLast.append newNode)
    · rw [links.busy node same, linksPersisted.busy node same] at busy
      rcases consistent.held node busy with live | ⟨other, first, second⟩
      · exact .inl (live.append newNode)
      · by_cases own : other = .enq thread
        · subst own
          rw [cell] at first
          cases first
          exact .inl ⟨queue.order.length, Nat.le_of_lt inOrder, index_append_self _ _⟩
        · refine .inr ⟨other, ?_, ?_⟩
          · rw [links.cell, if_neg own, first]
          · rw [linksPersisted.cell, if_neg own, second]
  · have different := notLast there
    rw [links.busy node different, linksPersisted.busy node different, keptNext node different,
      keptNextPersisted node different]
    exact consistent.alone other node (inside there).2
  · rcases live_append live with before | same
    · exact consistent.notLive other node (inside there).2 before
    · exact notNew there same
  · rw [List.mem_append, List.mem_singleton]
    rintro (member | same)
    · exact consistent.notLinked other node (inside there).2 member
    · exact notNew there same
  · have different := notLast there
    rw [links.busy node different]
    rw [linksPersisted.busy node different] at busy
    exact consistent.announced other node (inside there).2 busy
  · have different := notLast there
    rw [linksPersisted.busy node different]
    rw [links.busy node different] at busy
    exact consistent.taken other node (inside there).2 busy

/-- The first node is taken in both images. -/
theorem Consistent.take (consistent : Consistent current persisted queue) {first : Nat}
    {next : Option Nat} (here : queue.order[queue.head]? = some first)
    (there : queue.order[queue.head + 1]? = next) (quiet : Quiet current persisted (.deq thread))
    (takes : Takes current current' thread first next)
    (takesPersisted : Takes persisted persisted' thread first next) :
    Consistent current' persisted' { queue with head := queue.head + 1 } := by
  have later : ∀ {node}, Live { queue with head := queue.head + 1 } node → Live queue node := by
    rintro node ⟨index, after, place⟩
    exact ⟨index, Nat.le_of_succ_le after, place⟩
  have liveFirst : Live queue first := ⟨queue.head, Nat.le_refl _, here⟩
  have busyFirst := consistent.busy first liveFirst
  have inside : ∀ {other node}, In current' persisted' other node →
      other = .deq thread ∧ node = first ∨ other ≠ .deq thread ∧ In current persisted other node := by
    intro other node place
    unfold In at place
    rw [takes.cell, takesPersisted.cell] at place
    by_cases same : other = .deq thread
    · rw [if_pos same, if_pos same, or_self, Option.some.injEq] at place
      exact .inl ⟨same, place.symm⟩
    · rw [if_neg same, if_neg same] at place
      exact .inr ⟨same, place⟩
  have enqInside : ∀ {other node}, In current' persisted' (.enq other) node →
      In current persisted (.enq other) node := by
    intro other node place
    rcases inside place with ⟨same, -⟩ | ⟨-, before⟩
    · cases same
    · exact before
  refine
    { linked := consistent.linked.congr fun node _ => takes.next node
      linkedPersisted := consistent.linkedPersisted.congr fun node _ => takesPersisted.next node
      head := takes.head.trans there.symm
      headPersisted := takesPersisted.head.trans there.symm
      busy := fun node live => ?_
      held := fun node busy => ?_
      alone := fun other node place => ?_
      cells := fun one two node first_ second => ?_
      notLive := fun other node place live => ?_
      notLinked := fun other node place => consistent.notLinked other node (enqInside place)
      announced := fun other node place busy => ?_
      taken := fun other node place busy => ?_ }
  · rw [takes.busy, takesPersisted.busy]
    exact consistent.busy node (later live)
  · rw [takes.busy, takesPersisted.busy] at busy
    rcases consistent.held node busy with ⟨index, after, place⟩ | ⟨other, one, two⟩
    · rcases Nat.eq_or_lt_of_le after with same | beyond
      · rw [← same, here] at place
        cases place
        refine .inr ⟨.deq thread, ?_, ?_⟩
        · rw [takes.cell, if_pos rfl]
        · rw [takesPersisted.cell, if_pos rfl]
      · exact .inl ⟨index, beyond, place⟩
    · have different : other ≠ .deq thread := by
        rintro rfl
        obtain ⟨notBusy, notPersisted⟩ := quiet node (.inl one)
        exact busy.elim notBusy notPersisted
      refine .inr ⟨other, ?_, ?_⟩
      · rw [takes.cell, if_neg different, one]
      · rw [takesPersisted.cell, if_neg different, two]
  · rw [takes.busy, takesPersisted.busy, takes.next, takesPersisted.next]
    exact consistent.alone other node (enqInside place)
  · rcases inside first_ with ⟨oneSame, rfl⟩ | ⟨-, before⟩
    · rcases inside second with ⟨twoSame, -⟩ | ⟨-, before⟩
      · rw [oneSame, twoSame]
      · exact absurd liveFirst (consistent.notLive two node before)
    · rcases inside second with ⟨-, rfl⟩ | ⟨-, before'⟩
      · exact absurd liveFirst (consistent.notLive one node before)
      · exact consistent.cells one two node before before'
  · rcases inside place with ⟨-, rfl⟩ | ⟨-, before⟩
    · obtain ⟨index, after, same⟩ := live
      have := consistent.linked.index_unique here same
      exact Nat.not_succ_le_self _ (this ▸ after)
    · exact consistent.notLive other node before (later live)
  · rw [takesPersisted.busy] at busy
    rw [takes.busy]
    exact consistent.announced other node (enqInside place) busy
  · rw [takes.busy] at busy
    rw [takesPersisted.busy]
    rcases inside place with ⟨-, rfl⟩ | ⟨-, before⟩
    · exact busyFirst.2
    · exact consistent.taken other node before busy

end Operations

end Pmwcas.MSQueueTest
