/-
This file is the invariant of the benchmark queues under crashes. What a thread knows of its two cells
and of the node in them is the same in both images or on its way from one to the other, and no other
thread touches it; what it knows of the queue stays true as the queue grows. A crash throws away what
the threads know and keeps the rest.
-/

import Mathlib.Data.Finset.Card
import Pmwcas.Library.AnnouncedQueue
import Pmwcas.MSQueueTestImages

namespace Pmwcas.MSQueueTest

open Transition MSQueueByPMWCas LinkedList

/-! ### What a thread knows of a cell -/

/-- The cell is empty in both images. -/
def Empty (current persisted : Image) (cell : Cell) : Prop :=
  current.cell cell = none ∧ persisted.cell cell = none

/-- Both images have the same node in the cell and agree on whether it is busy. -/
def Agrees (current persisted : Image) (cell : Cell) : Prop :=
  current.cell cell = persisted.cell cell ∧
    ∀ node, current.cell cell = some node → (current.Busy node ↔ persisted.Busy node)

/-- The node is in the cell, busy, and in NVM as well. -/
def Ready (current persisted : Image) (cell : Cell) (node : Nat) : Prop :=
  current.cell cell = some node ∧ current.Busy node ∧ persisted.Busy node

/-- A step leaves a cell and the node in it as they are, or they get into NVM. -/
structure KeptAt (current persisted current' persisted' : Image) (cell : Cell) : Prop where
  same : current'.cell cell = current.cell cell
  samePersisted : persisted'.cell cell = persisted.cell cell ∨
    persisted'.cell cell = current.cell cell
  busy : ∀ node, In current persisted cell node → (current'.Busy node ↔ current.Busy node)
  busyPersisted : ∀ node, In current persisted cell node →
    (persisted'.Busy node ↔ persisted.Busy node) ∨ (persisted'.Busy node ↔ current.Busy node)
  next : ∀ node, In current persisted cell node → current'.nextOf node = current.nextOf node

section KeptAt

variable {current persisted current' persisted' : Image} {cell : Cell} {node : Nat}
  {queue queue' : Queue Nat}

theorem KeptAt.inside (kept : KeptAt current persisted current' persisted' cell)
    (here : In current' persisted' cell node) : In current persisted cell node := by
  rcases here with here | here
  · exact .inl (kept.same.symm.trans here)
  · rcases kept.samePersisted with same | same
    · exact .inr (same.symm.trans here)
    · exact .inl (same.symm.trans here)

theorem Quiet.kept (kept : KeptAt current persisted current' persisted' cell)
    (quiet : Quiet current persisted cell) : Quiet current' persisted' cell := by
  intro node here
  have before := kept.inside here
  obtain ⟨notBusy, notPersisted⟩ := quiet node before
  refine ⟨fun busy => notBusy ((kept.busy node before).1 busy), fun busy => ?_⟩
  rcases kept.busyPersisted node before with same | same
  · exact notPersisted (same.1 busy)
  · exact notBusy (same.1 busy)

theorem Empty.kept (kept : KeptAt current persisted current' persisted' cell)
    (empty : Empty current persisted cell) : Empty current' persisted' cell := by
  refine ⟨kept.same.trans empty.1, ?_⟩
  rcases kept.samePersisted with same | same
  · exact same.trans empty.2
  · exact same.trans empty.1

theorem Agrees.kept (kept : KeptAt current persisted current' persisted' cell)
    (agrees : Agrees current persisted cell) : Agrees current' persisted' cell := by
  obtain ⟨sameCell, sameBusy⟩ := agrees
  refine ⟨?_, fun node here => ?_⟩
  · rcases kept.samePersisted with same | same
    · rw [kept.same, same, sameCell]
    · rw [kept.same, same]
  · have before := kept.same.symm.trans here
    rw [kept.busy node (.inl before)]
    rcases kept.busyPersisted node (.inl before) with same | same
    · rw [same, sameBusy node before]
    · rw [same]

theorem Ready.kept (kept : KeptAt current persisted current' persisted' cell)
    (ready : Ready current persisted cell node) : Ready current' persisted' cell node := by
  obtain ⟨here, busy, busyPersisted⟩ := ready
  refine ⟨kept.same.trans here, (kept.busy node (.inl here)).2 busy, ?_⟩
  rcases kept.busyPersisted node (.inl here) with same | same
  · exact same.2 busyPersisted
  · exact same.2 busy

theorem KeptAt.persisted_some (kept : KeptAt current persisted current' persisted' cell)
    (here : current.cell cell = some node) (there : persisted.cell cell = some node) :
    persisted'.cell cell = some node := by
  rcases kept.samePersisted with same | same
  · exact same.trans there
  · exact same.trans here

theorem Quiet.of_empty (empty : Empty current persisted cell) : Quiet current persisted cell := by
  rintro node (here | here)
  · rw [empty.1] at here
    cases here
  · rw [empty.2] at here
    cases here

theorem Agrees.of_empty (empty : Empty current persisted cell) : Agrees current persisted cell := by
  refine ⟨empty.1.trans empty.2.symm, fun node here => ?_⟩
  rw [empty.1] at here
  cases here

theorem Agrees.empty (agrees : Agrees current persisted cell) (none_ : current.cell cell = none) :
    Empty current persisted cell :=
  ⟨none_, agrees.1.symm.trans none_⟩

theorem Agrees.quiet (agrees : Agrees current persisted cell) (here : current.cell cell = some node)
    (notBusy : ¬ current.Busy node) : Quiet current persisted cell := by
  have only : ∀ other, In current persisted cell other → other = node := by
    rintro other (same | same)
    · exact Option.some.inj (same.symm.trans here)
    · rw [← agrees.1, here] at same
      exact (Option.some.inj same).symm
  intro other inside
  rw [only other inside]
  exact ⟨notBusy, fun busy => notBusy ((agrees.2 node here).2 busy)⟩

/-- Lines that get into NVM. -/
theorem KeptAt.writeBack (current persisted : Image) (lines : List Line) (cell : Cell) :
    KeptAt current persisted current (persisted.writeBack current lines) cell where
  same := rfl
  samePersisted := (persisted.writeBack_word current lines cell.address).symm
  busy _ _ := Iff.rfl
  busyPersisted node _ := by
    rcases persisted.writeBack_node current lines node with ⟨-, same⟩ | ⟨-, same⟩
    · exact .inr (Image.Busy.congr same)
    · exact .inl (Image.Busy.congr same)
  next _ _ := rfl

/-- A store to another cell. -/
theorem KeptAt.storeCell {other : Cell} (different : other ≠ cell) (value : Option Nat) :
    KeptAt current persisted (current.write cell.address value) persisted other where
  same := current.write_cell_of_ne different value
  samePersisted := .inl rfl
  busy _ _ := Iff.rfl
  busyPersisted _ _ := .inl Iff.rfl
  next _ _ := current.write_cell_nextOf cell value _

/-- A store to `next_` of a node in another cell. -/
theorem KeptAt.storeNext (consistent : Consistent current persisted queue)
    (here : current.cell cell = some node) {other : Cell} (different : other ≠ cell) :
    KeptAt current persisted (current.write (.next node) none) persisted other where
  same := Memory.write_of_ne _ (other.address_ne_next node).symm _
  samePersisted := .inl rfl
  busy _ _ := Iff.rfl
  busyPersisted _ _ := .inl Iff.rfl
  next held inside := by
    have notSame : Address.next held ≠ .next node := by
      intro same
      cases same
      exact different (consistent.cells other cell _ inside (.inl here))
    exact current.memory.write_of_ne notSame none

/-- A store to a field of a node in another cell. -/
theorem KeptAt.setNode (consistent : Consistent current persisted queue)
    (here : current.cell cell = some node) (fields : Fields) {other : Cell}
    (different : other ≠ cell) :
    KeptAt current persisted (current.setNode node fields) persisted other where
  same := rfl
  samePersisted := .inl rfl
  busy held inside := by
    refine current.setNode_busy_of_ne ?_ fields
    rintro rfl
    exact different (consistent.cells other cell _ inside (.inl here))
  busyPersisted _ _ := .inl Iff.rfl
  next _ _ := rfl

/-- A node is linked by another thread, or it is the other cell. -/
theorem KeptAt.link {thread last newNode : Nat} (consistent : Consistent current persisted queue)
    (live : Live queue last) (links : Links current current' thread last newNode)
    (linksPersisted : Links persisted persisted' thread last newNode) (different : cell ≠ .enq thread) :
    KeptAt current persisted current' persisted' cell := by
  have notLast : ∀ node, In current persisted cell node → node ≠ last := by
    rintro node inside rfl
    exact consistent.notLive cell node inside live
  refine ⟨?_, .inl ?_, fun node inside => links.busy node (notLast node inside),
    fun node inside => .inl (linksPersisted.busy node (notLast node inside)), fun node inside => ?_⟩
  · rw [links.cell, if_neg different]
  · rw [linksPersisted.cell, if_neg different]
  · rw [links.next, Function.update_of_ne (notLast node inside)]

/-- A node is taken by another thread, or it is the other cell. -/
theorem KeptAt.take {thread first : Nat} {following : Option Nat}
    (takes : Takes current current' thread first following)
    (takesPersisted : Takes persisted persisted' thread first following)
    (different : cell ≠ .deq thread) : KeptAt current persisted current' persisted' cell where
  same := by rw [takes.cell, if_neg different]
  samePersisted := .inl (by rw [takesPersisted.cell, if_neg different])
  busy node _ := takes.busy node
  busyPersisted node _ := .inl (takesPersisted.busy node)
  next node _ := takes.next node

/-- A step that leaves the cells and the nodes as they are. -/
theorem KeptAt.of_same (cells : ∀ cell, current'.cell cell = current.cell cell)
    (nodes : current'.nodes = current.nodes) (next : ∀ node, current'.nextOf node = current.nextOf node)
    (cell : Cell) : KeptAt current persisted current' persisted cell where
  same := cells cell
  samePersisted := .inl rfl
  busy node _ := Image.Busy.congr (congrFun nodes node)
  busyPersisted _ _ := .inl Iff.rfl
  next node _ := next node

end KeptAt

/-! ### What a thread knows -/

/-- Where `enq()` of `MSQueueByPMWCas` may be. -/
def EnqPc.Of : EnqPc → Prop
  | .loadTail | .recheckTail _ | .mwcas _ => True
  | .loadNext _ | .checkTail _ _ | .dcas _ | .exchangeTail _ | .exchangeBehind _ _ => False

/-- Where `deq()` of `MSQueueByPMWCas` may be. -/
def DeqPc.Of : DeqPc → Prop
  | .loadHead | .loadTail _ | .loadNext _ _ | .checkHead _ _ _ | .loadCell _ _ | .mwcas _ _ _ => True
  | .dcas _ _ | .exchangeTail _ _ | .flushCell => False

section Fits

variable (current persisted : Image) (queue : Queue Nat) (thread : Nat)

/-- The thread has nothing left to do for its last `dequeue()`, whose node may still be in the cell. -/
structure DeqDone : Prop where
  agrees : Agrees current persisted (.deq thread)
  quiet : Quiet current persisted (.deq thread)

/-- What the caller of `enq()` knows. -/
def Caller.Fits : Caller → Prop
  | .enqueue => DeqDone current persisted thread
  | .recover => Agrees current persisted (.deq thread)

/-- What `enqueue()` knows of its new node. -/
def PrepareStage.Fits (newNode : Nat) : PrepareStage → Prop
  | .flushCell => Quiet current persisted (.enq thread)
  | .storeNext =>
    Quiet current persisted (.enq thread) ∧ persisted.cell (.enq thread) = some newNode
  | .storeData | .storeBusy =>
    Quiet current persisted (.enq thread) ∧ persisted.cell (.enq thread) = some newNode ∧
      current.nextOf newNode = none
  | .flushNode => current.Busy newNode ∧ persisted.cell (.enq thread) = some newNode

/-- What `cleanDeqNode()` knows of its node. -/
def CleanStage.Fits (deqNode : Nat) : CleanStage → Prop
  | .check | .storeBusy => Agrees current persisted (.deq thread)
  | .storeData | .flushNode =>
    persisted.cell (.deq thread) = some deqNode ∧ ¬ current.Busy deqNode

/-- What a thread knows. -/
def Pc.Fits : Pc → Prop
  | .restarted => Agrees current persisted (.enq thread) ∧ Agrees current persisted (.deq thread)
  | .doRecoverEnq enqNode =>
    Agrees current persisted (.enq thread) ∧ Agrees current persisted (.deq thread) ∧
      current.cell (.enq thread) = some enqNode
  | .clearEnqCell => Quiet current persisted (.enq thread) ∧ Agrees current persisted (.deq thread)
  | .flushEnqCell =>
    Quiet current persisted (.enq thread) ∧ Agrees current persisted (.deq thread) ∧
      current.cell (.enq thread) = none
  | .recoverDeq => Empty current persisted (.enq thread) ∧ Agrees current persisted (.deq thread)
  | .doRecoverDeq deqNode =>
    Empty current persisted (.enq thread) ∧ Agrees current persisted (.deq thread) ∧
      current.cell (.deq thread) = some deqNode
  | .recovered => Empty current persisted (.enq thread) ∧ Empty current persisted (.deq thread)
  | .barrier | .idle =>
    Empty current persisted (.enq thread) ∧ DeqDone current persisted thread
  | .prepare stage newNode _ =>
    DeqDone current persisted thread ∧ current.cell (.enq thread) = some newNode ∧
      stage.Fits current persisted thread newNode
  | .loadEnqCell caller =>
    caller.Fits current persisted thread ∧
      ∃ newNode, Ready current persisted (.enq thread) newNode
  | .enq caller newNode pc =>
    caller.Fits current persisted thread ∧ EnqPc.Of pc ∧ pc.Fits queue newNode ∧
      (pc.Pending → Ready current persisted (.enq thread) newNode) ∧
      (¬ pc.Pending → Empty current persisted (.enq thread))
  | .deq pc =>
    Empty current persisted (.enq thread) ∧ DeqDone current persisted thread ∧
      DeqPc.Of pc ∧ pc.Fits queue
  | .loadResult => Empty current persisted (.enq thread) ∧ Agrees current persisted (.deq thread)
  | .clean _ stage deqNode =>
    Empty current persisted (.enq thread) ∧ current.cell (.deq thread) = some deqNode ∧
      stage.Fits current persisted thread deqNode
  | .clearDeqCell => Empty current persisted (.enq thread) ∧ Quiet current persisted (.deq thread)
  | .flushDeqCell =>
    Empty current persisted (.enq thread) ∧ Quiet current persisted (.deq thread) ∧
      current.cell (.deq thread) = none

end Fits

section Kept

variable {current persisted current' persisted' : Image} {queue queue' : Queue Nat}
  {thread : Nat}

theorem DeqDone.kept (kept : KeptAt current persisted current' persisted' (.deq thread))
    (done : DeqDone current persisted thread) : DeqDone current' persisted' thread :=
  ⟨done.agrees.kept kept, done.quiet.kept kept⟩

theorem DeqDone.of_empty (empty : Empty current persisted (.deq thread)) :
    DeqDone current persisted thread :=
  ⟨.of_empty empty, .of_empty empty⟩

theorem Caller.Fits.kept (kept : KeptAt current persisted current' persisted' (.deq thread))
    {caller : Caller} (fits : caller.Fits current persisted thread) :
    caller.Fits current' persisted' thread := by
  cases caller with
  | enqueue => exact DeqDone.kept kept fits
  | recover => exact Agrees.kept kept fits

theorem PrepareStage.Fits.kept (kept : KeptAt current persisted current' persisted' (.enq thread))
    {newNode : Nat} (here : current.cell (.enq thread) = some newNode) {stage : PrepareStage}
    (fits : stage.Fits current persisted thread newNode) :
    stage.Fits current' persisted' thread newNode := by
  cases stage with
  | flushCell => exact Quiet.kept kept fits
  | storeNext => exact ⟨fits.1.kept kept, kept.persisted_some here fits.2⟩
  | storeData | storeBusy =>
    exact ⟨fits.1.kept kept, kept.persisted_some here fits.2.1,
      (kept.next newNode (.inl here)).trans fits.2.2⟩
  | flushNode =>
    exact ⟨(kept.busy newNode (.inl here)).2 fits.1, kept.persisted_some here fits.2⟩

theorem CleanStage.Fits.kept (kept : KeptAt current persisted current' persisted' (.deq thread))
    {deqNode : Nat} (here : current.cell (.deq thread) = some deqNode) {stage : CleanStage}
    (fits : stage.Fits current persisted thread deqNode) :
    stage.Fits current' persisted' thread deqNode := by
  cases stage with
  | check | storeBusy => exact Agrees.kept kept fits
  | storeData | flushNode =>
    exact ⟨kept.persisted_some here fits.1, fun busy => fits.2 ((kept.busy deqNode (.inl here)).1 busy)⟩

/-- What a thread knows stays true while its cells and the nodes in them stay as they are. -/
theorem Pc.Fits.kept (keptEnq : KeptAt current persisted current' persisted' (.enq thread))
    (keptDeq : KeptAt current persisted current' persisted' (.deq thread)) (later : queue.Le queue')
    {pc : Pc} (fits : pc.Fits current persisted queue thread) :
    pc.Fits current' persisted' queue' thread := by
  cases pc with
  | restarted => exact ⟨fits.1.kept keptEnq, fits.2.kept keptDeq⟩
  | doRecoverEnq =>
    exact ⟨fits.1.kept keptEnq, fits.2.1.kept keptDeq, keptEnq.same.trans fits.2.2⟩
  | clearEnqCell => exact ⟨fits.1.kept keptEnq, fits.2.kept keptDeq⟩
  | flushEnqCell =>
    exact ⟨fits.1.kept keptEnq, fits.2.1.kept keptDeq, keptEnq.same.trans fits.2.2⟩
  | recoverDeq => exact ⟨fits.1.kept keptEnq, fits.2.kept keptDeq⟩
  | doRecoverDeq =>
    exact ⟨fits.1.kept keptEnq, fits.2.1.kept keptDeq, keptDeq.same.trans fits.2.2⟩
  | recovered => exact ⟨fits.1.kept keptEnq, fits.2.kept keptDeq⟩
  | barrier | idle => exact ⟨fits.1.kept keptEnq, fits.2.kept keptDeq⟩
  | prepare stage newNode =>
    exact ⟨fits.1.kept keptDeq, keptEnq.same.trans fits.2.1, fits.2.2.kept keptEnq fits.2.1⟩
  | loadEnqCell =>
    obtain ⟨callerFits, newNode, ready⟩ := fits
    exact ⟨callerFits.kept keptDeq, newNode, ready.kept keptEnq⟩
  | enq caller newNode pc =>
    obtain ⟨callerFits, own, knows, ready, empty⟩ := fits
    exact ⟨callerFits.kept keptDeq, own, knows.mono later, fun pending => (ready pending).kept keptEnq,
      fun linked => (empty linked).kept keptEnq⟩
  | deq pc =>
    obtain ⟨empty, done, own, knows⟩ := fits
    exact ⟨empty.kept keptEnq, done.kept keptDeq, own, knows.mono later⟩
  | loadResult => exact ⟨fits.1.kept keptEnq, fits.2.kept keptDeq⟩
  | clean purpose stage deqNode =>
    exact ⟨fits.1.kept keptEnq, keptDeq.same.trans fits.2.1, fits.2.2.kept keptDeq fits.2.1⟩
  | clearDeqCell => exact ⟨fits.1.kept keptEnq, fits.2.kept keptDeq⟩
  | flushDeqCell =>
    exact ⟨fits.1.kept keptEnq, fits.2.1.kept keptDeq, keptDeq.same.trans fits.2.2⟩

end Kept

/-! ### The queue in NVM -/

/-- What NVM has of the node in a cell: nothing if it is not busy. -/
def Image.hand (image : Image) (cell : Cell) : Option Nat :=
  (image.cell cell).filter fun node => image.Busy node

theorem Image.hand_eq_some {image : Image} {cell : Cell} {node : Nat} :
    image.hand cell = some node ↔ image.cell cell = some node ∧ image.Busy node := by
  unfold Image.hand
  rw [Option.filter_eq_some_iff, decide_eq_true_iff]

/-- The queue as it is in NVM: what a crash leaves. -/
def Image.queue (image : Image) (queue : Queue Nat) : AnnouncedQueue Nat Nat where
  contents := queue.order.drop queue.head
  announced thread := image.hand (.enq thread)
  taken thread := image.hand (.deq thread)

theorem mem_drop_head {queue : Queue Nat} {node : Nat} :
    node ∈ queue.order.drop queue.head ↔ Live queue node := by
  rw [List.mem_iff_getElem?]
  constructor
  · rintro ⟨index, here⟩
    rw [List.getElem?_drop] at here
    exact ⟨queue.head + index, Nat.le_add_right _ _, here⟩
  · rintro ⟨index, after, here⟩
    refine ⟨index - queue.head, ?_⟩
    rw [List.getElem?_drop, Nat.add_sub_cancel' after]
    exact here

theorem mem_contents {image : Image} {queue : Queue Nat} {node : Nat} :
    node ∈ (image.queue queue).contents ↔ Live queue node :=
  mem_drop_head

/-- The queue in NVM stays as it is or takes a step. -/
def Evolves (before after : AnnouncedQueue Nat Nat) : Prop :=
  after = before ∨ ∃ thread, before.Step thread after

section Evolves

variable {current persisted persisted' : Image} {queue : Queue Nat}

theorem Option.eq_of_eq_some {one two : Option Nat}
    (same : ∀ value, one = some value ↔ two = some value) : one = two :=
  Option.ext fun value => same value

/-- A node that is busy in NVM is in its cell in both images. -/
theorem Consistent.settled (consistent : Consistent current persisted queue) {cell : Cell} {node : Nat}
    (here : In current persisted cell node) (busy : current.Busy node ∨ persisted.Busy node) :
    current.cell cell = some node ∧ persisted.cell cell = some node := by
  rcases consistent.held node busy with live | ⟨other, first, second⟩
  · exact absurd live (consistent.notLive cell node here)
  · obtain rfl := consistent.cells cell other node here (.inl first)
    exact ⟨first, second⟩

/-- What is in a hand after a line other than that of a node got into NVM. -/
theorem Consistent.hand_writeBack (consistent : Consistent current persisted queue) {line : Line}
    (notNode : ∀ node, line ≠ .node node) (cell : Cell) :
    (persisted.writeBack current [line]).hand cell = persisted.hand cell := by
  refine Option.eq_of_eq_some fun node => ?_
  have sameBusy : (persisted.writeBack current [line]).Busy node ↔ persisted.Busy node :=
    Image.writeBack_busy_of_not_mem fun member => notNode node (List.mem_singleton.1 member).symm
  rw [Image.hand_eq_some, Image.hand_eq_some, sameBusy]
  refine and_congr_left fun busy => ⟨fun here => ?_, fun here => ?_⟩
  · exact (consistent.settled (In.of_writeBack (.inr here)) (.inr busy)).2
  · obtain ⟨first, second⟩ := consistent.settled (.inr here) (.inr busy)
    rcases persisted.writeBack_word current [line] cell.address with same | same
    · exact same.trans first
    · exact same.trans second

theorem writeBack_node_cell (current persisted : Image) (node : Nat) (cell : Cell) :
    (persisted.writeBack current [.node node]).cell cell = persisted.cell cell := by
  refine Image.writeBack_of_not_mem fun member => ?_
  rw [List.mem_singleton] at member
  cases cell with
  | enq | deq => cases member

/-- What is in a hand after the line of a node got into NVM: only this node may be new or gone. -/
theorem hand_writeBack_node (current persisted : Image) (node : Nat) (cell : Cell) (other : Nat) :
    (persisted.writeBack current [.node node]).hand cell = some other ↔
      persisted.cell cell = some other ∧ if other = node then current.Busy node else
        persisted.Busy other := by
  rw [Image.hand_eq_some, writeBack_node_cell]
  refine and_congr_right fun _ => ?_
  by_cases same : other = node
  · rw [if_pos same, same]
    exact Image.writeBack_busy_of_mem (List.mem_singleton.2 rfl)
  · rw [if_neg same]
    refine Image.writeBack_busy_of_not_mem fun member => ?_
    rw [List.mem_singleton] at member
    cases member
    exact same rfl

/-- A cell in which the node is not keeps what is in it. -/
theorem hand_writeBack_of_other (consistent : Consistent current persisted queue) {node : Nat}
    {cell other : Cell} (here : In current persisted cell node) (different : other ≠ cell) :
    (persisted.writeBack current [.node node]).hand other = persisted.hand other := by
  refine Option.eq_of_eq_some fun held => ?_
  rw [hand_writeBack_node, Image.hand_eq_some]
  refine and_congr_right fun there => ?_
  rw [if_neg]
  rintro rfl
  exact different (consistent.cells other cell held (.inr there) here)

/-- A line that gets into NVM may finish an announcement or a release. -/
theorem Consistent.evolves_writeBack (consistent : Consistent current persisted queue) (line : Line) :
    Evolves (persisted.queue queue) ((persisted.writeBack current [line]).queue queue) := by
  by_cases isNode : ∃ node, line = .node node
  · obtain ⟨node, rfl⟩ := isNode
    by_cases same : current.Busy node ↔ persisted.Busy node
    · have hands : ∀ cell, (persisted.writeBack current [.node node]).hand cell =
          persisted.hand cell := by
        intro cell
        refine Option.eq_of_eq_some fun held => ?_
        rw [hand_writeBack_node, Image.hand_eq_some]
        refine and_congr_right fun _ => ?_
        by_cases here : held = node
        · rw [if_pos here, here, same]
        · rw [if_neg here]
      refine .inl ?_
      simp only [Image.queue, hands]
    · have oneBusy : current.Busy node ∨ persisted.Busy node := by
        by_contra neither
        rw [not_or] at neither
        exact same ⟨fun busy => absurd busy neither.1, fun busy => absurd busy neither.2⟩
      rcases consistent.held node oneBusy with live | ⟨cell, here, there⟩
      · obtain ⟨busy, busyPersisted⟩ := consistent.busy node live
        exact absurd ⟨fun _ => busyPersisted, fun _ => busy⟩ same
      · have others : ∀ other, other ≠ cell →
            (persisted.writeBack current [.node node]).hand other = persisted.hand other :=
          fun other different => hand_writeBack_of_other consistent (.inl here) different
        cases cell with
        | enq thread =>
          -- the node became busy, as a busy node in this cell stays so
          have busy : current.Busy node := by
            rcases oneBusy with busy | busyPersisted
            · exact busy
            · exact consistent.announced thread node (.inl here) busyPersisted
          have notPersisted : ¬ persisted.Busy node := fun busyPersisted =>
            same ⟨fun _ => busyPersisted, fun _ => busy⟩
          have free : persisted.hand (.enq thread) = none := by
            unfold Image.hand
            rw [there, Option.filter_some, if_neg]
            rw [decide_eq_true_iff]
            exact notPersisted
          have after : (persisted.writeBack current [.node node]).hand (.enq thread) = some node :=
            (hand_writeBack_node _ _ _ _ _).2 ⟨there, by rw [if_pos rfl]; exact busy⟩
          have announced : (fun other => (persisted.writeBack current [.node node]).hand (.enq other)) =
              Function.update (fun other => persisted.hand (.enq other)) thread (some node) := by
            funext other
            by_cases own : other = thread
            · rw [own, Function.update_self, after]
            · rw [Function.update_of_ne own, others _ (by simp [own])]
          have taken : (fun other => (persisted.writeBack current [.node node]).hand (.deq other)) =
              fun other => persisted.hand (.deq other) := by
            funext other
            exact others _ (by simp)
          refine .inr ⟨thread, ?_⟩
          have step : (persisted.queue queue).Step thread _ := .announce node free ?_
          · unfold Image.queue at step ⊢
            rw [announced, taken]
            exact step
          · rintro (member | ⟨other, held | held⟩)
            · exact notPersisted (consistent.busy node (mem_contents.1 member)).2
            · exact notPersisted (Image.hand_eq_some.1 held).2
            · exact notPersisted (Image.hand_eq_some.1 held).2
        | deq thread =>
          -- the node is no longer busy, as such a node in this cell stays so
          have busyPersisted : persisted.Busy node := by
            rcases oneBusy with busy | busyPersisted
            · exact consistent.taken thread node (.inl here) busy
            · exact busyPersisted
          have notBusy : ¬ current.Busy node := fun busy =>
            same ⟨fun _ => busyPersisted, fun _ => busy⟩
          have held : persisted.hand (.deq thread) = some node :=
            Image.hand_eq_some.2 ⟨there, busyPersisted⟩
          have after : (persisted.writeBack current [.node node]).hand (.deq thread) = none := by
            rw [Option.eq_none_iff_forall_ne_some]
            intro other inside
            obtain ⟨again, sets⟩ := (hand_writeBack_node _ _ _ _ _).1 inside
            obtain rfl := Option.some.inj (there.symm.trans again)
            rw [if_pos rfl] at sets
            exact notBusy sets
          have announced : (fun other => (persisted.writeBack current [.node node]).hand (.enq other)) =
              fun other => persisted.hand (.enq other) := by
            funext other
            exact others _ (by simp)
          have taken : (fun other => (persisted.writeBack current [.node node]).hand (.deq other)) =
              Function.update (fun other => persisted.hand (.deq other)) thread none := by
            funext other
            by_cases own : other = thread
            · rw [own, Function.update_self, after]
            · rw [Function.update_of_ne own, others _ (by simp [own])]
          refine .inr ⟨thread, ?_⟩
          have step : (persisted.queue queue).Step thread _ := .release node held
          unfold Image.queue at step ⊢
          rw [announced, taken]
          exact step
  · have hands : ∀ cell, (persisted.writeBack current [line]).hand cell = persisted.hand cell :=
      consistent.hand_writeBack fun node same => isNode ⟨node, same⟩
    refine .inl ?_
    simp only [Image.queue, hands]

/-- What is in a hand after a node is linked or taken. -/
theorem hand_of_other {cell : Cell} (cells : persisted'.cell cell = persisted.cell cell)
    (busy : ∀ node, persisted.cell cell = some node → (persisted'.Busy node ↔ persisted.Busy node)) :
    persisted'.hand cell = persisted.hand cell := by
  refine Option.eq_of_eq_some fun node => ?_
  rw [Image.hand_eq_some, Image.hand_eq_some, cells]
  exact and_congr_right fun here => busy node here

theorem Consistent.evolves_link (consistent : Consistent current persisted queue) {thread last newNode : Nat}
    (live : Live queue last) (ready : Ready current persisted (.enq thread) newNode)
    (links : Links persisted persisted' thread last newNode) :
    Evolves (persisted.queue queue)
      (persisted'.queue { queue with order := queue.order ++ [newNode] }) := by
  obtain ⟨here, busy, busyPersisted⟩ := ready
  have held : persisted.hand (.enq thread) = some newNode :=
    Image.hand_eq_some.2 ⟨(consistent.settled (.inl here) (.inl busy)).2, busyPersisted⟩
  have others : ∀ cell, cell ≠ .enq thread → persisted'.hand cell = persisted.hand cell := by
    intro cell different
    refine hand_of_other ?_ fun node inside => links.busy node ?_
    · rw [links.cell, if_neg different]
    · rintro rfl
      exact consistent.notLive cell node (.inr inside) live
  have gone : persisted'.hand (.enq thread) = none := by
    unfold Image.hand
    rw [links.cell, if_pos rfl]
    rfl
  have announced : (fun other => persisted'.hand (.enq other)) =
      Function.update (fun other => persisted.hand (.enq other)) thread none := by
    funext other
    by_cases own : other = thread
    · rw [own, Function.update_self, gone]
    · rw [Function.update_of_ne own, others _ (by simp [own])]
  have taken : (fun other => persisted'.hand (.deq other)) =
      fun other => persisted.hand (.deq other) := by
    funext other
    exact others _ (by simp)
  have contents : (queue.order ++ [newNode]).drop queue.head =
      queue.order.drop queue.head ++ [newNode] := by
    obtain ⟨index, after, place⟩ := live
    exact List.drop_append_of_le_length (after.trans (Nat.le_of_lt (index_lt place)))
  have step : (persisted.queue queue).Step thread _ := .link newNode held
  refine .inr ⟨thread, ?_⟩
  unfold Image.queue at step ⊢
  rw [announced, taken, contents]
  exact step

theorem Consistent.evolves_take {thread first next : Nat} (here : queue.order[queue.head]? = some first)
    (there : queue.order[queue.head + 1]? = some next) (quiet : Quiet current persisted (.deq thread))
    (busyFirst : persisted.Busy first) (takes : Takes persisted persisted' thread first (some next)) :
    Evolves (persisted.queue queue) (persisted'.queue { queue with head := queue.head + 1 }) := by
  have free : persisted.hand (.deq thread) = none := by
    rw [Option.eq_none_iff_forall_ne_some]
    intro node held
    obtain ⟨inside, busy⟩ := Image.hand_eq_some.1 held
    exact (quiet node (.inr inside)).2 busy
  have others : ∀ cell, cell ≠ .deq thread → persisted'.hand cell = persisted.hand cell := by
    intro cell different
    refine hand_of_other ?_ fun node _ => takes.busy node
    rw [takes.cell, if_neg different]
  have own : persisted'.hand (.deq thread) = some first := by
    rw [Image.hand_eq_some, takes.cell, if_pos rfl, takes.busy]
    exact ⟨rfl, busyFirst⟩
  have announced : (fun other => persisted'.hand (.enq other)) =
      fun other => persisted.hand (.enq other) := by
    funext other
    exact others _ (by simp)
  have taken : (fun other => persisted'.hand (.deq other)) =
      Function.update (fun other => persisted.hand (.deq other)) thread (some first) := by
    funext other
    by_cases same : other = thread
    · rw [same, Function.update_self, own]
    · rw [Function.update_of_ne same, others _ (by simp [same])]
  have following : queue.order.drop (queue.head + 1) = next :: queue.order.drop (queue.head + 2) := by
    obtain ⟨inside, same⟩ := List.getElem?_eq_some_iff.1 there
    rw [List.drop_eq_getElem_cons inside, same]
  have contents : queue.order.drop queue.head = first :: next :: queue.order.drop (queue.head + 2) := by
    obtain ⟨inside, same⟩ := List.getElem?_eq_some_iff.1 here
    rw [List.drop_eq_getElem_cons inside, same, following]
  have step : (persisted.queue queue).Step thread _ := .take first next _ contents free
  refine .inr ⟨thread, ?_⟩
  unfold Image.queue at step ⊢
  rw [announced, taken, following]
  exact step

end Evolves

end Pmwcas.MSQueueTest
