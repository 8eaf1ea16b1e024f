/-
This file is about a constructor `OptmizedFASASDescriptorPool::OptmizedFASASDescriptorPool` that is
stopped between two of its stores and run again.

Recovery of an existing pool can be stopped anywhere: what a descriptor still has to do follows from its
own fields and from its shared word, which recovery does not write. The construction of a new pool
marks a descriptor with the store to its `opType_`. It does not clear the pool first, so a second
run after the first mark takes the pool for an old one: it stops at the first descriptor without a mark,
and recovers what it finds in the others.
-/

import Pmwcas.OptmizedFasasRecovery
import Pmwcas.OptmizedFasasTags

namespace Pmwcas

open Stores

/-! ### The constructor -/

/-- The separately written fields of a descriptor. -/
inductive OptmizedField where
  | sharedAddress
  | oldShareVarValue
  | newShareVarValue
  | opType
  | privateAddress
  | processId
  | isPrivateAddrSet
  | isShareVarSet
  | statusInfo
  deriving DecidableEq, Repr

/-- The fields in the order in which the constructor of `OptmizedFASASDescriptor` writes them. -/
def OptmizedField.all : List OptmizedField :=
  [.sharedAddress, .oldShareVarValue, .newShareVarValue, .opType, .privateAddress, .processId,
    .isPrivateAddrSet, .isShareVarSet, .statusInfo]

/-- `target` with one field taken from `source`. -/
def OptmizedFASASDescriptor.copyField (source target : OptmizedFASASDescriptor) :
    OptmizedField → OptmizedFASASDescriptor
  | .sharedAddress => { target with sharedAddress := source.sharedAddress }
  | .oldShareVarValue => { target with oldShareVarValue := source.oldShareVarValue }
  | .newShareVarValue => { target with newShareVarValue := source.newShareVarValue }
  | .opType => { target with opType := source.opType }
  | .privateAddress => { target with privateAddress := source.privateAddress }
  | .processId => { target with processId := source.processId }
  | .isPrivateAddrSet => { target with isPrivateAddrSet := source.isPrivateAddrSet }
  | .isShareVarSet => { target with isShareVarSet := source.isShareVarSet }
  | .statusInfo => { target with statusInfo := source.statusInfo }

/-- A store to a field of descriptor `d`: what `source` has there. -/
def OptmizedImage.storeField (image : OptmizedImage) (d : Nat) (source : OptmizedFASASDescriptor)
    (field : OptmizedField) : OptmizedImage :=
  image.setDesc d (source.copyField (image.desc d) field)

/-- The metadata of a pool at `base`. -/
def OptmizedPool.metadata (pool : OptmizedPool) (base : Nat) : Metadata :=
  { descriptorCount := pool.poolSize.toNat, initialAddress := base - sizeofMetadata }

namespace OptmizedFasas

variable (pool : OptmizedPool) (base : Nat)

/-- `createNewDescriptor`. -/
def createNewDescriptor : Program OptmizedImage Abort :=
  .fill (fun d field image =>
    image.storeField d (.constructed (pool.processIdAt d).toNat) field)
    OptmizedField.all pool.poolSize.toNat

/-- The checks of the metadata of a pool at `base`. -/
def checkOptmizedMetadata : Program OptmizedImage Abort :=
  (Program.check (.rawCheck .invalidInitialAddress) fun image =>
    image.metadata.initialAddress == base - sizeofMetadata).andThen
  (.check (.rawCheck .wrongPoolSize) fun image =>
    image.metadata.descriptorCount == pool.poolSize.toNat)

/-- `OptmizedFASASDescriptorPool::OptmizedFASASDescriptorPool`. -/
def optmizedDescriptorPool : Program OptmizedImage Abort :=
  (checkOptmizedMetadata pool base).andThen <|
    .branch (fun image => (image.desc 0).opType != .zero)
      (recoverDescriptor pool.poolSize.toNat) (createNewDescriptor pool)

/-! ### Stopped recovery -/

/-- The fields of the descriptors are such as operations leave them: there is an operation for the
operation type, and the private word of an unfinished operation is no shared word and not the
private word of another one. -/
structure Contract (size : Nat) (image : OptmizedImage) : Prop where
  typed : ∀ d < size, (image.desc d).opType ≠ .zero → ((image.desc d).opType.recoverCASOp ||
    (image.desc d).opType.doubleCASOp || (image.desc d).opType.fasasOp) = true
  apart : ∀ d < size, ∀ e < size, rolls image d = true → (image.desc e).sharedAddress ≠ 0 →
    (image.desc d).privateAddress ≠ (image.desc e).sharedAddress
  own : ∀ d < size, ∀ e < size, rolls image d = true → rolls image e = true →
    (image.desc d).privateAddress = (image.desc e).privateAddress → d = e

/-- Recovery finds nothing wrong with descriptor `d`. -/
structure Passing (image : OptmizedImage) (d : Nat) : Prop where
  marked : (image.desc d).opType ≠ .zero
  matches_ : (image.desc d).sharedAddress ≠ 0 → valueMatches image d = true
  set : rolls image d = true → (image.desc d).privateAddress ≠ 0

/-- The private word of descriptor `d` has its value. -/
def Written (start image : OptmizedImage) (d : Nat) : Prop :=
  image.mem (start.desc d).privateAddress = (start.desc d).privateValue

/-- Recovery from `start` may have come to `image` with descriptor `d`. -/
structure Progress (start image : OptmizedImage) (d : Nat) : Prop where
  desc : image.desc d = { start.desc d with
    isPrivateAddrSet := (image.desc d).isPrivateAddrSet
    isShareVarSet := (image.desc d).isShareVarSet
    statusInfo := ⟨(start.desc d).statusInfo.seqId, (image.desc d).statusInfo.succ⟩ }
  private_ : (image.desc d).isPrivateAddrSet = true →
    (start.desc d).isPrivateAddrSet = true ∨ rolls start d = true ∧ Written start image d
  privateKept : (start.desc d).isPrivateAddrSet = true → (image.desc d).isPrivateAddrSet = true
  succ : (image.desc d).statusInfo.succ = true →
    (start.desc d).statusInfo.succ = true ∨ rolls start d = true
  succKept : (start.desc d).statusInfo.succ = true → (image.desc d).statusInfo.succ = true

/-- Recovery from `start` may have been stopped at `image`. -/
structure Stopped (size : Nat) (start image : OptmizedImage) : Prop where
  metadata : image.metadata = start.metadata
  progress : ∀ d < size, Progress start image d
  mem : ∀ address, image.mem address = start.mem address ∨
    ∃ d < size, rolls start d = true ∧ (start.desc d).privateAddress = address ∧ Written start image d

section Stopped

variable {size d : Nat} {start image : OptmizedImage}

theorem stopped_start (size : Nat) (start : OptmizedImage) : Stopped size start start where
  metadata := rfl
  progress _ _ := ⟨rfl, .inl, id, .inl, id⟩
  mem _ := .inl rfl

theorem Progress.target (progress : Progress start image d) :
    image.target d = image.mem (start.desc d).sharedAddress := by
  rw [OptmizedImage.target, progress.desc]

theorem Progress.tagged (progress : Progress start image d) (val : Nat) :
    image.tagged d val = start.tagged d val := by
  rw [OptmizedImage.tagged, progress.desc]
  rfl

/-- Recovery does not write the shared words. -/
theorem Stopped.target (stopped : Stopped size start image) (contract : Contract size start)
    (inside : d < size) (placed : (start.desc d).sharedAddress ≠ 0) :
    image.target d = start.target d := by
  rw [(stopped.progress d inside).target]
  rcases stopped.mem (start.desc d).sharedAddress with same | ⟨e, below, rolling, here, -⟩
  · exact same
  · exact absurd here (contract.apart e below d inside rolling placed)

theorem Progress.placed (progress : Progress start image d) (rolling : rolls image d = true) :
    (start.desc d).sharedAddress ≠ 0 := by
  intro zero
  rw [rolls, progress.desc] at rolling
  simp [zero] at rolling

/-- What is left to do was to be done from the start. -/
theorem Stopped.rolls_start (stopped : Stopped size start image) (contract : Contract size start)
    (inside : d < size) (rolling : rolls image d = true) : rolls start d = true := by
  have progress := stopped.progress d inside
  have placed := progress.placed rolling
  have same := stopped.target contract inside placed
  simp only [rolls, Bool.and_eq_true, Bool.not_eq_true', Bool.or_eq_true, bne_iff_ne, ne_eq] at rolling
  obtain ⟨⟨-, notSet⟩, succ | tagged⟩ := rolling
  · rcases progress.succ succ with before | rolls_
    · have startNotSet : (start.desc d).isPrivateAddrSet = false := by
        by_contra set
        rw [progress.privateKept (by simpa using set)] at notSet
        cases notSet
      simp [rolls, placed, startNotSet, before]
    · exact rolls_
  · have startNotSet : (start.desc d).isPrivateAddrSet = false := by
      by_contra set
      rw [progress.privateKept (by simpa using set)] at notSet
      cases notSet
    rw [same, progress.tagged] at tagged
    simp [rolls, placed, startNotSet, tagged]

/-- What was to be done is done or left to do. -/
theorem Stopped.written_or_rolls (stopped : Stopped size start image)
    (contract : Contract size start) (inside : d < size) (rolling : rolls start d = true) :
    Written start image d ∧ (image.desc d).isPrivateAddrSet = true ∨ rolls image d = true := by
  have progress := stopped.progress d inside
  have facts := rolling
  simp only [rolls, Bool.and_eq_true, Bool.not_eq_true', Bool.or_eq_true, bne_iff_ne, ne_eq] at facts
  obtain ⟨⟨placed, notSet⟩, chosen⟩ := facts
  cases set : (image.desc d).isPrivateAddrSet with
  | true =>
    rcases progress.private_ set with before | ⟨-, written⟩
    · rw [notSet] at before
      cases before
    · exact .inl ⟨written, rfl⟩
  | false =>
    have address : (image.desc d).sharedAddress ≠ 0 := by
      rw [progress.desc]
      exact placed
    have either : ((image.desc d).statusInfo.succ || image.tagged d (image.target d)) = true := by
      rw [stopped.target contract inside placed, progress.tagged, Bool.or_eq_true]
      exact chosen.imp_left progress.succKept
    right
    rw [rolls, set, either]
    simp [address]

/-- The checks of recovery have the same results. -/
theorem Stopped.passing (stopped : Stopped size start image) (contract : Contract size start)
    (inside : d < size) (passing : Passing start d) : Passing image d := by
  have progress := stopped.progress d inside
  refine ⟨?_, fun placed => ?_, fun rolling => ?_⟩
  · rw [progress.desc]
    exact passing.marked
  · rw [progress.desc] at placed
    rw [valueMatches, stopped.target contract inside placed, progress.tagged, progress.desc]
    exact passing.matches_ placed
  · rw [progress.desc]
    exact passing.set (stopped.rolls_start contract inside rolling)

/-! ### The stores of recovery -/

/-- A store to a flag of descriptor `d` keeps what is known of the others. -/
theorem Stopped.setDesc (stopped : Stopped size start image) {descriptor : OptmizedFASASDescriptor}
    (progress : Progress start (image.setDesc d descriptor) d) :
    Stopped size start (image.setDesc d descriptor) := by
  refine ⟨stopped.metadata, fun e inside => ?_, stopped.mem⟩
  by_cases same : e = d
  · rw [same]
    exact progress
  · have here := stopped.progress e inside
    have kept := OptmizedImage.setDesc_desc_of_ne image same descriptor
    exact
      { desc := by rw [kept]; exact here.desc
        private_ := by rw [kept]; exact here.private_
        privateKept := by rw [kept]; exact here.privateKept
        succ := by rw [kept]; exact here.succ
        succKept := by rw [kept]; exact here.succKept }

theorem Stopped.setShare (stopped : Stopped size start image) (inside : d < size) :
    Stopped size start (image.setDesc d { image.desc d with isShareVarSet := true }) := by
  have here := stopped.progress d inside
  refine stopped.setDesc ?_
  exact
    { desc := by rw [OptmizedImage.setDesc_desc_self, here.desc]
      private_ := by rw [OptmizedImage.setDesc_desc_self]; exact here.private_
      privateKept := by rw [OptmizedImage.setDesc_desc_self]; exact here.privateKept
      succ := by rw [OptmizedImage.setDesc_desc_self]; exact here.succ
      succKept := by rw [OptmizedImage.setDesc_desc_self]; exact here.succKept }

theorem Stopped.setSucc (stopped : Stopped size start image) (inside : d < size)
    (rolling : rolls start d = true) :
    Stopped size start (image.setDesc d { image.desc d with
      statusInfo := ⟨(image.desc d).statusInfo.seqId, true⟩ }) := by
  have here := stopped.progress d inside
  refine stopped.setDesc ?_
  exact
    { desc := by rw [OptmizedImage.setDesc_desc_self, here.desc]
      private_ := by rw [OptmizedImage.setDesc_desc_self]; exact here.private_
      privateKept := by rw [OptmizedImage.setDesc_desc_self]; exact here.privateKept
      succ := fun _ => .inr rolling
      succKept := fun _ => by rw [OptmizedImage.setDesc_desc_self] }

theorem Stopped.setPrivate (stopped : Stopped size start image) (inside : d < size)
    (rolling : rolls start d = true) (written : Written start image d) :
    Stopped size start (image.setDesc d { image.desc d with isPrivateAddrSet := true }) := by
  have here := stopped.progress d inside
  refine stopped.setDesc ?_
  exact
    { desc := by rw [OptmizedImage.setDesc_desc_self, here.desc]
      private_ := fun _ => .inr ⟨rolling, written⟩
      privateKept := fun _ => by rw [OptmizedImage.setDesc_desc_self]
      succ := by rw [OptmizedImage.setDesc_desc_self]; exact here.succ
      succKept := by rw [OptmizedImage.setDesc_desc_self]; exact here.succKept }

/-- The store to the private word. -/
theorem Stopped.storeWord (stopped : Stopped size start image) (contract : Contract size start)
    (inside : d < size) (rolling : rolls start d = true) :
    Stopped size start
      (image.storeWord (start.desc d).privateAddress (start.desc d).privateValue) := by
  have written : ∀ e < size, rolls start e = true → Written start image e →
      Written start (image.storeWord (start.desc d).privateAddress (start.desc d).privateValue)
        e := by
    intro e below rollsThere there
    by_cases same : (start.desc e).privateAddress = (start.desc d).privateAddress
    · obtain rfl := contract.own e below d inside rollsThere rolling same
      exact OptmizedImage.storeWord_mem_self _ _ _
    · exact (OptmizedImage.storeWord_mem_of_ne _ same _).trans there
  refine ⟨stopped.metadata, fun e below => ?_, fun address => ?_⟩
  · have here := stopped.progress e below
    refine ⟨here.desc, fun set => ?_, here.privateKept, here.succ, here.succKept⟩
    refine (here.private_ set).imp_right fun done => ⟨done.1, written e below done.1 done.2⟩
  · by_cases same : (start.desc d).privateAddress = address
    · exact .inr ⟨d, inside, rolling, same, OptmizedImage.storeWord_mem_self _ _ _⟩
    · rcases stopped.mem address with kept | ⟨e, below, rollsThere, place, there⟩
      · exact .inl ((OptmizedImage.storeWord_mem_of_ne _ (Ne.symm same) _).trans kept)
      · exact .inr ⟨e, below, rollsThere, place, written e below rollsThere there⟩

/-- A store to a private word keeps the others that have been written. -/
theorem Contract.written_storeWord (contract : Contract size start) {e : Nat} (inside : d < size)
    (below : e < size) (rolling : rolls start d = true) (rollsThere : rolls start e = true)
    (there : Written start image e) :
    Written start (image.storeWord (start.desc d).privateAddress (start.desc d).privateValue) e := by
  by_cases same : (start.desc e).privateAddress = (start.desc d).privateAddress
  · obtain rfl := contract.own e below d inside rollsThere rolling same
    exact OptmizedImage.storeWord_mem_self _ _ _
  · exact (OptmizedImage.storeWord_mem_of_ne _ same _).trans there

end Stopped

/-! ### Recovery of one descriptor -/

/-- Recovery from `start` has come to `image` and is done with the listed descriptors. -/
structure Reached (size : Nat) (start : OptmizedImage) (done : List Nat) (image : OptmizedImage) :
    Prop where
  stopped : Stopped size start image
  written : ∀ e ∈ done, e < size → rolls start e = true → Written start image e

section Reached

variable {size d : Nat} {start image : OptmizedImage} {done : List Nat}

/-- Stores that leave the user words alone. -/
theorem Reached.congr {after : OptmizedImage} (reached : Reached size start done image)
    (stopped : Stopped size start after) (same : after.mem = image.mem) :
    Reached size start done after :=
  ⟨stopped, fun e member inside rolling => by
    rw [Written, same]
    exact reached.written e member inside rolling⟩

theorem Reached.append (reached : Reached size start done image)
    (written : rolls start d = true → Written start image d) :
    Reached size start (done ++ [d]) image := by
  refine ⟨reached.stopped, fun e member inside rolling => ?_⟩
  rcases List.mem_append.1 member with early | late
  · exact reached.written e early inside rolling
  · obtain rfl := List.mem_singleton.1 late
    exact written rolling

variable (contract : Contract size start) (inside : d < size) (passing : Passing start d)

include contract inside passing

theorem doRecoverPrivateAddrSucc_reached (rolling : rolls start d = true) :
    Triple (Reached size start done) (doRecoverPrivateAddrSucc d)
      (Reached size start (done ++ [d])) (Stopped size start) := by
  have placed : Triple (Reached size start done)
      (Program.check Abort.nullPointer fun image => (image.desc d).privateAddress != 0)
      (Reached size start done) (Stopped size start) := by
    refine Triple.check fun image reached => ?_
    rw [(reached.stopped.progress d inside).desc]
    exact bne_iff_ne.2 (passing.set rolling)
  have stored : Triple (Reached size start done)
      (Program.branch (fun image => (image.desc d).opType.recoverCASOp ||
          (image.desc d).opType.doubleCASOp || (image.desc d).opType.fasasOp)
        (.store fun image =>
          image.storeWord (image.desc d).privateAddress (image.desc d).privateValue)
        .pass : Program OptmizedImage Abort)
      (Reached size start (done ++ [d])) (Stopped size start) := by
    refine .branch (Triple.store ?_) ?_
    · rintro image ⟨reached, -⟩
      have same : image.storeWord (image.desc d).privateAddress (image.desc d).privateValue =
          image.storeWord (start.desc d).privateAddress (start.desc d).privateValue := by
        rw [(reached.stopped.progress d inside).desc]
        rfl
      rw [same]
      have stopped := reached.stopped.storeWord contract inside rolling
      refine ⟨⟨stopped, fun e member below rollsThere => ?_⟩, stopped⟩
      rcases List.mem_append.1 member with early | late
      · exact contract.written_storeWord inside below rolling rollsThere
          (reached.written e early below rollsThere)
      · obtain rfl := List.mem_singleton.1 late
        exact OptmizedImage.storeWord_mem_self _ _ _
    · rintro image ⟨reached, untyped⟩
      have typed := contract.typed d inside passing.marked
      rw [(reached.stopped.progress d inside).desc] at untyped
      rw [typed] at untyped
      cases untyped
  refine placed.andThen (stored.andThen (Triple.store fun image reached => ?_))
  have written : Written start image d :=
    reached.written d (List.mem_append_right _ (List.mem_singleton_self d)) inside rolling
  have stopped := reached.stopped.setPrivate inside rolling written
  exact ⟨reached.congr stopped rfl, stopped⟩

theorem recoverOneDescriptor_reached (val : Nat) :
    Triple (fun image => Reached size start done image ∧ (start.desc d).sharedAddress ≠ 0 ∧
        image.target d = val)
      (recoverOneDescriptor d val) (Reached size start (done ++ [d])) (Stopped size start) := by
  have matching : Triple
      (fun image => Reached size start done image ∧ (start.desc d).sharedAddress ≠ 0 ∧
        image.target d = val)
      (Program.check (Abort.rawCheck .valueNotMatch) fun image =>
        !image.tagged d val || actualValueOf val == (image.desc d).newShareVarValue)
      (fun image => Reached size start done image ∧ (start.desc d).sharedAddress ≠ 0 ∧
        image.target d = val) (Stopped size start) := by
    refine Triple.check ?_
    rintro image ⟨reached, placed, rfl⟩
    refine (reached.stopped.passing contract inside passing).matches_ ?_
    rw [(reached.stopped.progress d inside).desc]
    exact placed
  have rolls_of : ∀ image, Reached size start done image → (start.desc d).sharedAddress ≠ 0 →
      (image.desc d).isPrivateAddrSet = false →
      ((image.desc d).statusInfo.succ || image.tagged d (image.target d)) = true →
      rolls start d = true := by
    intro image reached placed notSet chosen
    refine reached.stopped.rolls_start contract inside ?_
    have address : (image.desc d).sharedAddress ≠ 0 := by
      rw [(reached.stopped.progress d inside).desc]
      exact placed
    rw [rolls, notSet, chosen]
    simp [address]
  have rolled : Triple (fun image => Reached size start done image ∧ rolls start d = true)
      (doRecoverPrivateAddrSucc d) (Reached size start (done ++ [d])) (Stopped size start) :=
    fun image here =>
      doRecoverPrivateAddrSucc_reached contract inside passing here.2 image here.1
  have shared : Triple (Reached size start (done ++ [d]))
      (Program.store fun image =>
        image.setDesc d { image.desc d with isShareVarSet := true } : Program OptmizedImage Abort)
      (Reached size start (done ++ [d])) (Stopped size start) := by
    refine Triple.store fun image reached => ?_
    have stopped := reached.stopped.setShare inside
    exact ⟨reached.congr stopped rfl, stopped⟩
  refine matching.andThen (.branch (.pass ?_) (Triple.andThen ?_ shared))
  · rintro image ⟨⟨reached, -, -⟩, set⟩
    refine reached.append fun rolling => ?_
    rcases reached.stopped.written_or_rolls contract inside rolling with ⟨written, -⟩ | here
    · exact written
    · simp [rolls, set] at here
  · refine .branch ?_ (.branch (Triple.andThen (Triple.store ?_) rolled) (.pass ?_))
    · rintro image ⟨⟨⟨reached, placed, -⟩, notSet⟩, succ⟩
      exact rolled image ⟨reached, rolls_of image reached placed notSet (by rw [succ]; rfl)⟩
    · rintro image ⟨⟨⟨⟨reached, placed, rfl⟩, notSet⟩, -⟩, tagged⟩
      have rolling := rolls_of image reached placed notSet (by rw [tagged, Bool.or_true])
      have stopped := reached.stopped.setSucc inside rolling
      exact ⟨⟨reached.congr stopped rfl, rolling⟩, stopped⟩
    · rintro image ⟨⟨⟨⟨reached, -, rfl⟩, notSet⟩, notSucc⟩, notTagged⟩
      refine reached.append fun rolling => ?_
      rcases reached.stopped.written_or_rolls contract inside rolling with ⟨written, -⟩ | here
      · exact written
      · simp [rolls, notSucc, notTagged] at here

/-- Recovery of one more descriptor passes, wherever an earlier run was stopped. -/
theorem recoverDescriptorAt_reached :
    Triple (Reached size start done) (recoverDescriptorAt d) (Reached size start (done ++ [d]))
      (Stopped size start) := by
  have marked : Triple (Reached size start done)
      (Program.check (Abort.rawCheck .corruptedPool) fun image => (image.desc d).opType != .zero)
      (Reached size start done) (Stopped size start) := by
    refine Triple.check fun image reached => ?_
    exact bne_iff_ne.2 (reached.stopped.passing contract inside passing).marked
  refine marked.andThen (.branch (.pass ?_) (.read fun val => ?_))
  · rintro image ⟨reached, unset⟩
    refine reached.append fun rolling => ?_
    have zero : (start.desc d).sharedAddress = 0 := by
      rw [(reached.stopped.progress d inside).desc] at unset
      exact eq_of_beq unset
    simp [rolls, zero] at rolling
  · refine (recoverOneDescriptor_reached contract inside passing val).weaken ?_ (fun _ => id)
      fun _ => id
    rintro image ⟨⟨reached, placed⟩, same⟩
    refine ⟨reached, ?_, same⟩
    rw [(reached.stopped.progress d inside).desc] at placed
    simpa using placed

end Reached

/-! ### The recovery loop -/

section Loop

variable {size count : Nat} {start image : OptmizedImage}

theorem recoverDescriptor_succ (count : Nat) :
    recoverDescriptor (count + 1) =
      (recoverDescriptor count).andThen ((recoverDescriptorAt count).andThen .pass) := by
  rw [recoverDescriptor, List.range_succ, Program.forEach_append]
  rfl

/-- Recovery passes, wherever an earlier run was stopped, and has then written the private words of all
operations it was to finish. -/
theorem recoverDescriptor_reached (contract : Contract size start) (below : count ≤ size)
    (passing : ∀ d < count, Passing start d) :
    Triple (Stopped size start) (recoverDescriptor count) (Reached size start (List.range count))
      (Stopped size start) := by
  refine (Triple.forEach (Reached size start) (List.range count) ?_).weaken
    (fun image stopped => ⟨stopped, nofun⟩) (fun _ => id) fun _ => id
  intro done d rest split
  have inside : d < count := by
    rw [← List.mem_range, split]
    exact List.mem_append_right _ List.mem_cons_self
  exact recoverDescriptorAt_reached contract (Nat.lt_of_lt_of_le inside below) (passing d inside)

/-- The stores for a descriptor leave the others alone. -/
theorem recoverDescriptorAt_keeps {d e : Nat} (different : e ≠ d)
    (descriptor : OptmizedFASASDescriptor) :
    Keeps (recoverDescriptorAt d) fun image => image.desc e = descriptor := by
  have setDesc : ∀ (image : OptmizedImage) (changed : OptmizedFASASDescriptor),
      image.desc e = descriptor → (image.setDesc d changed).desc e = descriptor :=
    fun image changed same => (OptmizedImage.setDesc_desc_of_ne image different changed).trans same
  have nothing : Keeps (Program.pass : Program OptmizedImage Abort)
      fun image => image.desc e = descriptor :=
    fun _ _ _ impossible => absurd impossible List.not_mem_nil
  have rolled : Keeps (doRecoverPrivateAddrSucc d) fun image => image.desc e = descriptor :=
    .andThen (.check _ _) (.andThen (.branch (.store fun _ same => same) nothing)
      (.store fun image => setDesc image _))
  refine .andThen (.check _ _) (.branch nothing (.read fun val => ?_))
  refine .andThen (.check _ _) (.branch nothing (.andThen (.branch rolled ?_) ?_))
  · exact .branch (.andThen (.store fun image => setDesc image _) rolled) nothing
  · exact .store fun image => setDesc image _

theorem recoverDescriptor_keeps {e : Nat} (behind : count ≤ e)
    (descriptor : OptmizedFASASDescriptor) :
    Keeps (recoverDescriptor count) fun image => image.desc e = descriptor := by
  refine .forEach _ fun d member => recoverDescriptorAt_keeps ?_ descriptor
  have before := List.mem_range.1 member
  omega

/-- A recovery of a descriptor that passes has found nothing wrong with it. -/
theorem passing_of_recoverDescriptorAt {d : Nat}
    (passes : (recoverDescriptorAt d image).error = none) : Passing image d := by
  have rolled : Ensures
      (fun memory => (memory.desc d).privateAddress = (image.desc d).privateAddress)
      (doRecoverPrivateAddrSucc d) fun _ => (image.desc d).privateAddress ≠ 0 := by
    refine Ensures.check.andThen (.const ?_)
    rintro memory ⟨same, set⟩
    rw [← same]
    exact bne_iff_ne.1 set
  -- what the checks before the branches have found
  let Checked := (image.desc d).opType ≠ .zero ∧ valueMatches image d = true
  have set_of : Checked → (image.desc d).privateAddress ≠ 0 → Passing image d :=
    fun checked set => ⟨checked.1, fun _ => checked.2, fun _ => set⟩
  have branches : Ensures
      (fun memory => (memory = image ∧ Checked) ∧ (memory.desc d).isPrivateAddrSet = false)
      (Program.branch (fun image => (image.desc d).statusInfo.succ) (doRecoverPrivateAddrSucc d)
        (.branch (fun memory => memory.tagged d (image.target d))
          ((Program.store fun image => image.setDesc d { image.desc d with
            statusInfo := ⟨(image.desc d).statusInfo.seqId, true⟩ }).andThen
            (doRecoverPrivateAddrSucc d))
          .pass))
      fun _ => Passing image d := by
    refine .branch ?_ (.branch ?_ (.pass ?_))
    · rintro memory ⟨⟨⟨rfl, checked⟩, -⟩, -⟩ ends
      exact set_of checked (rolled memory rfl ends)
    · rintro memory ⟨⟨⟨⟨rfl, checked⟩, -⟩, -⟩, -⟩ ends
      have stored : Ensures (fun other => other = memory)
          (Program.store fun image => image.setDesc d { image.desc d with
            statusInfo := ⟨(image.desc d).statusInfo.seqId, true⟩ } : Program OptmizedImage Abort)
          fun other => (other.desc d).privateAddress = (memory.desc d).privateAddress := by
        refine .store fun other same => ?_
        rw [OptmizedImage.setDesc_desc_self, same]
      exact set_of checked ((stored.andThen rolled) memory rfl ends)
    · rintro memory ⟨⟨⟨⟨rfl, checked⟩, -⟩, notSucc⟩, notTagged⟩
      refine ⟨checked.1, fun _ => checked.2, fun rolling => ?_⟩
      simp [rolls, notSucc, notTagged] at rolling
  have whole : Ensures (fun memory => memory = image) (recoverDescriptorAt d)
      fun _ => Passing image d := by
    refine Ensures.check.andThen (.branch (.const ?_) (.read fun val => ?_))
    · rintro memory ⟨⟨rfl, marked⟩, unset⟩
      have zero : (memory.desc d).sharedAddress = 0 := eq_of_beq unset
      refine ⟨bne_iff_ne.1 marked, fun placed => absurd zero placed, fun rolling => ?_⟩
      simp [rolls, zero] at rolling
    · rintro memory ⟨⟨⟨rfl, marked⟩, -⟩, rfl⟩
      have one : Ensures (fun other => other = memory ∧ (memory.desc d).opType ≠ .zero)
          (recoverOneDescriptor d (memory.target d)) fun _ => Passing memory d := by
        refine Ensures.check.andThen (.branch (.const ?_) (Ensures.andThen ?_ (.const fun _ => id)))
        · rintro other ⟨⟨⟨rfl, marked⟩, matching⟩, set⟩
          refine ⟨marked, fun _ => matching, fun rolling => ?_⟩
          simp [rolls, set] at rolling
        · rintro other ⟨⟨⟨rfl, marked⟩, matching⟩, notSet⟩
          exact branches other ⟨⟨rfl, marked, matching⟩, notSet⟩
      exact one memory ⟨rfl, bne_iff_ne.1 marked⟩
  exact whole image rfl passes

/-- A recovery that passes has found nothing wrong with any descriptor. -/
theorem passing_of_recoverDescriptor (contract : Contract size start) (below : count ≤ size)
    (passes : (recoverDescriptor count start).error = none) : ∀ d < count, Passing start d := by
  induction count with
  | zero => exact fun d impossible => absurd impossible (Nat.not_lt_zero d)
  | succ count inductionHypothesis =>
    rw [recoverDescriptor_succ] at passes
    have earlier := Program.error_first_of_andThen passes
    have passing := inductionHypothesis (Nat.le_of_lt below) earlier
    rw [Program.error_andThen earlier] at passes
    have here := passing_of_recoverDescriptorAt (Program.error_first_of_andThen passes)
    have stopped := ((recoverDescriptor_reached contract (Nat.le_of_lt below) passing start
      (stopped_start size start)).2.2).stopped
    have same : ((recoverDescriptor count).final start).desc count = start.desc count :=
      (recoverDescriptor_keeps (Nat.le_refl count) (start.desc count)).final rfl
    generalize (recoverDescriptor count).final start = image at here stopped same
    have target : (start.desc count).sharedAddress ≠ 0 → image.target count = start.target count :=
      stopped.target contract below
    intro d inside
    rcases Nat.lt_or_eq_of_le (Nat.le_of_lt_succ inside) with smaller | rfl
    · exact passing d smaller
    · refine ⟨same ▸ here.marked, fun placed => ?_, fun rolling => ?_⟩
      · have matches_ := here.matches_ (same.symm ▸ placed)
        rwa [valueMatches, target placed, OptmizedImage.tagged, same] at matches_
      · have placed : (start.desc d).sharedAddress ≠ 0 := by
          intro zero
          simp [rolls, zero] at rolling
        rw [← same]
        refine here.set ?_
        rw [rolls, target placed, OptmizedImage.tagged, same]
        exact rolling

/-- All recoveries end with the same user words. -/
theorem Reached.mem_eq {other : OptmizedImage}
    (reached : Reached size start (List.range size) image)
    (again : Reached size start (List.range size) other) : other.mem = image.mem := by
  funext address
  by_cases rolled : ∃ d < size, rolls start d = true ∧ (start.desc d).privateAddress = address
  · obtain ⟨d, inside, rolling, rfl⟩ := rolled
    have member := List.mem_range.2 inside
    exact (again.written d member inside rolling).trans
      (reached.written d member inside rolling).symm
  · have kept : ∀ memory, Stopped size start memory → memory.mem address = start.mem address := by
      intro memory stopped
      rcases stopped.mem address with same | ⟨d, inside, rolling, here, -⟩
      · exact same
      · exact absurd ⟨d, inside, rolling, here⟩ rolled
    rw [kept other again.stopped, kept image reached.stopped]

end Loop

/-! ### The constructor, stopped and run again -/

section Constructor

variable {pool : OptmizedPool} {base count : Nat} {image : OptmizedImage}

theorem checkOptmizedMetadata_quiet (accepted : image.metadata = OptmizedPool.metadata pool base) :
    Quiet (checkOptmizedMetadata pool base) image := by
  refine (Quiet.check ?_).andThen (Quiet.check ?_)
  · rw [accepted]
    exact beq_self_eq_true _
  · rw [accepted]
    exact beq_self_eq_true _

theorem accepted_of_optmized_passes
    (passes : (optmizedDescriptorPool pool base image).error = none) :
    image.metadata = OptmizedPool.metadata pool base := by
  have metadata := Program.error_first_of_andThen passes
  have first := Program.test_of_check (Program.error_first_of_andThen metadata)
  rw [checkOptmizedMetadata, Program.error_andThen (Program.error_first_of_andThen metadata)]
    at metadata
  have second := Program.test_of_check metadata
  have first : image.metadata.initialAddress = base - sizeofMetadata := beq_iff_eq.mp first
  have second : image.metadata.descriptorCount = pool.poolSize.toNat := beq_iff_eq.mp second
  cases content : image.metadata with
  | mk descriptorCount initialAddress =>
    rw [content] at first second
    rw [OptmizedPool.metadata, ← first, ← second]

/-- The constructor on a pool that is taken for an old one. -/
theorem optmizedDescriptorPool_old (accepted : image.metadata = OptmizedPool.metadata pool base)
    (old : (image.desc 0).opType ≠ .zero) :
    optmizedDescriptorPool pool base image = recoverDescriptor pool.poolSize.toNat image :=
  (checkOptmizedMetadata_quiet accepted).andThen_eq.trans
    (Program.branch_of_true (bne_iff_ne.2 old))

/-- The constructor on a pool that is taken for a new one. -/
theorem optmizedDescriptorPool_new (accepted : image.metadata = OptmizedPool.metadata pool base)
    (new : (image.desc 0).opType = .zero) :
    optmizedDescriptorPool pool base image = createNewDescriptor pool image := by
  refine (checkOptmizedMetadata_quiet accepted).andThen_eq.trans (Program.branch_of_false ?_)
  rw [new]
  rfl

/-- A recovery can be stopped after any store and run again. -/
theorem optmizedDescriptorPool_restarts_old (old : (image.desc 0).opType ≠ .zero)
    (contract : Contract pool.poolSize.toNat image)
    (passes : (optmizedDescriptorPool pool base image).error = none) (count : Nat) :
    Restarts (optmizedDescriptorPool pool base) OptmizedImage.mem count image := by
  have accepted := accepted_of_optmized_passes passes
  have first := optmizedDescriptorPool_old accepted old
  rw [first] at passes
  have passing := passing_of_recoverDescriptor contract (Nat.le_refl _) passes
  have triple := recoverDescriptor_reached contract (Nat.le_refl _) passing
  obtain ⟨images, -, reached⟩ := triple image (stopped_start _ image)
  have run : (optmizedDescriptorPool pool base).run image =
      .ok ((recoverDescriptor pool.poolSize.toNat).final image) := by
    rw [← Program.run_of_none passes, Program.run, Program.run, Program.final, Program.final, first]
  have stop : (optmizedDescriptorPool pool base).stopAfter count image =
      (recoverDescriptor pool.poolSize.toNat).stopAfter count image := by
    rw [Program.stopAfter, Program.stopAfter, first]
  rw [Restarts, run, stop]
  rcases (recoverDescriptor pool.poolSize.toNat).stopAfter_mem count image with nothing | stored
  · rw [nothing]
    exact ⟨_, _, rfl, run, rfl⟩
  · have inhabited : 0 < pool.poolSize.toNat := by
      by_contra none_
      rw [Nat.eq_zero_of_not_pos none_] at stored
      cases stored
    have stopped := images _ stored
    generalize (recoverDescriptor pool.poolSize.toNat).stopAfter count image = halted at stopped
    have oldThere : (halted.desc 0).opType ≠ .zero := by
      rw [(stopped.progress 0 inhabited).desc]
      exact old
    have second := optmizedDescriptorPool_old (stopped.metadata.trans accepted) oldThere
    obtain ⟨-, ends, again⟩ := triple halted stopped
    refine ⟨_, (recoverDescriptor pool.poolSize.toNat).final halted, rfl, ?_, reached.mem_eq again⟩
    rw [← Program.run_of_none ends, Program.run, Program.run, Program.final, Program.final, second]

/-! ### Construction -/

/-- What a construction that was stopped after `count` stores has left. -/
theorem createNewDescriptor_stopAfter (pool : OptmizedPool) (count : Nat) (image : OptmizedImage) :
    let halted := (createNewDescriptor pool).stopAfter count image
    halted.metadata = image.metadata ∧ halted.mem = image.mem ∧
      ∀ d, halted.desc d = if d < pool.poolSize.toNat then
        (OptmizedField.all.take (count - 9 * d)).foldl
          (OptmizedFASASDescriptor.constructed (pool.processIdAt d).toNat).copyField (image.desc d)
        else image.desc d := by
  refine ⟨?_, ?_, fun d => ?_⟩
  · refine Program.view_fill _ _ OptmizedImage.metadata ?_ _ _ _
    exact fun _ _ _ => rfl
  · refine Program.view_fill _ _ OptmizedImage.mem ?_ _ _ _
    exact fun _ _ _ => rfl
  · refine (Program.get_fill _ _ OptmizedImage.desc (fun d field target =>
      (OptmizedFASASDescriptor.constructed (pool.processIdAt d).toNat).copyField target field) ?_
      _ _ _ _).trans rfl
    intro d field image e
    show Function.update image.desc d _ e = _
    rw [Function.update_apply]

/-- A field that has been written stays as the constructor leaves it. -/
theorem foldl_copyField_written {Value : Type} (get : OptmizedFASASDescriptor → Value)
    {source target : OptmizedFASASDescriptor}
    (copies : ∀ target field, get target = get source → get (source.copyField target field) = get source)
    (fields : List OptmizedField) (written : get target = get source) :
    get (fields.foldl source.copyField target) = get source := by
  induction fields generalizing target with
  | nil => exact written
  | cons field rest inductionHypothesis =>
    rw [List.foldl_cons]
    exact inductionHypothesis (copies target field written)

/-- A descriptor of a stopped construction: without an address from its first store on, and marked from
its fourth store on. -/
theorem stopped_descriptor {d : Nat} (inside : d < pool.poolSize.toNat) (count : Nat)
    (image : OptmizedImage) :
    let descriptor := ((createNewDescriptor pool).stopAfter count image).desc d
    (count ≤ 9 * d → descriptor = image.desc d) ∧
      (9 * d < count → descriptor.sharedAddress = 0) ∧
      descriptor.opType = if 9 * d + 3 < count then .fasas else (image.desc d).opType := by
  intro descriptor
  have content := (createNewDescriptor_stopAfter pool count image).2.2 d
  rw [if_pos inside] at content
  have same : descriptor = _ := content
  rw [same]
  by_cases before : count ≤ 9 * d
  · rw [Nat.sub_eq_zero_of_le before, if_neg (by omega)]
    exact ⟨fun _ => rfl, fun after => absurd after (by omega), rfl⟩
  · obtain ⟨stores, here⟩ : ∃ stores, count - 9 * d = stores + 1 := ⟨count - 9 * d - 1, by omega⟩
    rw [here]
    refine ⟨fun early => absurd early before, fun _ => ?_, ?_⟩
    · rw [OptmizedField.all, List.take_succ_cons, List.foldl_cons]
      refine foldl_copyField_written OptmizedFASASDescriptor.sharedAddress ?_ _ rfl
      intro target field written
      cases field with
      | sharedAddress => rfl
      | _ => exact written
    · match stores with
      | 0 => rw [if_neg (by omega)]; rfl
      | 1 => rw [if_neg (by omega)]; rfl
      | 2 => rw [if_neg (by omega)]; rfl
      | stores + 3 =>
        rw [if_pos (by omega), OptmizedField.all]
        simp only [List.take_succ_cons, List.foldl_cons]
        refine foldl_copyField_written OptmizedFASASDescriptor.opType ?_ _ rfl
        intro target field written
        cases field with
        | opType => rfl
        | _ => exact written

/-- Recovery of descriptor `d` passes and changes no user word. -/
structure Undisturbed (image : OptmizedImage) (d : Nat) : Prop where
  passing : Passing image d
  written : rolls image d = true → Written image image d

/-- The descriptors that a construction has not marked when it is stopped are taken for old ones: they
have a mark, and those it has not reached are not disturbed by recovery. -/
def Unnoticed (size : Nat) (image : OptmizedImage) (count : Nat) : Prop :=
  ∀ d < size, count ≤ 9 * d + 3 →
    (image.desc d).opType ≠ .zero ∧ (count ≤ 9 * d → Undisturbed image d)

section Halted

variable (pool) (image)

/-- Where a construction is stopped. -/
def halted (count : Nat) : OptmizedImage := (createNewDescriptor pool).stopAfter count image

variable {pool} {image}

theorem rolls_halted {d : Nat} (inside : d < pool.poolSize.toNat) :
    rolls (halted pool image count) d = true ↔ count ≤ 9 * d ∧ rolls image d = true := by
  obtain ⟨kept, cleared, -⟩ := stopped_descriptor inside count image
  obtain ⟨-, mem, -⟩ := createNewDescriptor_stopAfter pool count image
  by_cases before : count ≤ 9 * d
  · have same : rolls (halted pool image count) d = rolls image d := by
      rw [rolls, rolls, OptmizedImage.target, OptmizedImage.target, OptmizedImage.tagged,
        OptmizedImage.tagged, halted, kept before, mem]
    rw [same]
    exact ⟨fun rolling => ⟨before, rolling⟩, fun both => both.2⟩
  · have zero : ((halted pool image count).desc d).sharedAddress = 0 := cleared (by omega)
    refine ⟨fun rolling => ?_, fun both => absurd both.1 before⟩
    simp [rolls, zero] at rolling

theorem contract_halted (contract : Contract pool.poolSize.toNat image) :
    Contract pool.poolSize.toNat (halted pool image count) where
  typed d inside marked := by
    obtain ⟨-, -, opType⟩ := stopped_descriptor inside count image
    have same : ((halted pool image count).desc d).opType = _ := opType
    rw [same] at marked ⊢
    by_cases done : 9 * d + 3 < count
    · rw [if_pos done]
      rfl
    · rw [if_neg done] at marked ⊢
      exact contract.typed d inside marked
  apart d inside e below rolling placed := by
    obtain ⟨before, rolls_⟩ := (rolls_halted inside).1 rolling
    have unreached : count ≤ 9 * e := by
      by_contra reached
      exact placed ((stopped_descriptor below count image).2.1 (by omega))
    have keptD := (stopped_descriptor inside count image).1 before
    have keptE := (stopped_descriptor below count image).1 unreached
    rw [halted] at placed ⊢
    rw [keptE] at placed ⊢
    rw [keptD]
    exact contract.apart d inside e below rolls_ placed
  own d inside e below rolling rollsThere same := by
    obtain ⟨before, rolls_⟩ := (rolls_halted inside).1 rolling
    obtain ⟨unreached, rollsE⟩ := (rolls_halted below).1 rollsThere
    rw [halted, (stopped_descriptor inside count image).1 before,
      (stopped_descriptor below count image).1 unreached] at same
    exact contract.own d inside e below rolls_ rollsE same

theorem Undisturbed.congr {other : OptmizedImage} {d : Nat} (undisturbed : Undisturbed image d)
    (desc : other.desc d = image.desc d) (mem : other.mem = image.mem) : Undisturbed other d := by
  have target : other.target d = image.target d := by
    rw [OptmizedImage.target, OptmizedImage.target, desc, mem]
  have tagged : ∀ val, other.tagged d val = image.tagged d val := by
    intro val
    rw [OptmizedImage.tagged, OptmizedImage.tagged, desc]
  have same : rolls other d = rolls image d := by
    rw [rolls, rolls, target, tagged, desc]
  refine ⟨⟨desc ▸ undisturbed.passing.marked, fun placed => ?_, fun rolling => ?_⟩, fun rolling => ?_⟩
  · rw [valueMatches, target, tagged, desc]
    exact undisturbed.passing.matches_ (desc ▸ placed)
  · rw [desc]
    exact undisturbed.passing.set (same ▸ rolling)
  · rw [Written, mem, desc]
    exact undisturbed.written (same ▸ rolling)

/-- What recovery finds in a stopped construction. -/
theorem undisturbed_halted {d : Nat} (inside : d < pool.poolSize.toNat) :
    Undisturbed (halted pool image count) d ↔
      (count ≤ 9 * d + 3 → (image.desc d).opType ≠ .zero ∧
        (count ≤ 9 * d → Undisturbed image d)) := by
  obtain ⟨kept, cleared, opType⟩ := stopped_descriptor inside count image
  have mem : (halted pool image count).mem = image.mem :=
    (createNewDescriptor_stopAfter _ count image).2.1
  by_cases before : count ≤ 9 * d
  · have desc : (halted pool image count).desc d = image.desc d := kept before
    constructor
    · intro undisturbed _
      have here := undisturbed.congr desc.symm mem.symm
      exact ⟨here.passing.marked, fun _ => here⟩
    · intro unnoticed
      exact ((unnoticed (by omega)).2 before).congr desc mem
  · have zero : ((halted pool image count).desc d).sharedAddress = 0 := cleared (by omega)
    have marked : Undisturbed (halted pool image count) d ↔
        ((halted pool image count).desc d).opType ≠ .zero := by
      constructor
      · exact fun undisturbed => undisturbed.passing.marked
      · intro marked
        refine ⟨⟨marked, fun placed => absurd zero placed, fun rolling => ?_⟩, fun rolling => ?_⟩
        · simp [rolls, zero] at rolling
        · simp [rolls, zero] at rolling
    have same : ((halted pool image count).desc d).opType = _ := opType
    rw [marked, same]
    by_cases done : 9 * d + 3 < count
    · rw [if_pos done]
      exact ⟨fun _ early => absurd early (by omega), fun _ => by decide⟩
    · rw [if_neg done]
      exact ⟨fun old _ => ⟨old, fun early => absurd early before⟩, fun all => (all (by omega)).1⟩

end Halted

/-- A construction can be run again from the start if it was stopped before the first mark, or if what it
had not yet marked was unnoticed. -/
theorem optmizedDescriptorPool_restarts_new (new : (image.desc 0).opType = .zero)
    (contract : Contract pool.poolSize.toNat image)
    (accepted : image.metadata = OptmizedPool.metadata pool base) (count : Nat) :
    Restarts (optmizedDescriptorPool pool base) OptmizedImage.mem count image ↔
      count ≤ 3 ∨ Unnoticed pool.poolSize.toNat image count := by
  have first := optmizedDescriptorPool_new accepted new
  have creates : ∀ start : OptmizedImage, (createNewDescriptor pool start).error = none :=
    fun start => Program.fill_error _ _ _ _
  have keeps : ∀ start : OptmizedImage, ((createNewDescriptor pool).final start).mem = start.mem := by
    intro start
    rw [← Program.stopAfter_of_length_le (Nat.le_refl _)]
    exact (createNewDescriptor_stopAfter _ _ start).2.1
  have run : (optmizedDescriptorPool pool base).run image =
      .ok ((createNewDescriptor pool).final image) := by
    rw [← Program.run_of_none (creates image), Program.run, Program.run, Program.final,
      Program.final, first]
  have stop : (optmizedDescriptorPool pool base).stopAfter count image = halted pool image count := by
    rw [Program.stopAfter, halted, Program.stopAfter, first]
  have metadata : (halted pool image count).metadata = OptmizedPool.metadata pool base :=
    (createNewDescriptor_stopAfter _ count image).1.trans accepted
  have mem : (halted pool image count).mem = image.mem :=
    (createNewDescriptor_stopAfter _ count image).2.1
  rw [Restarts, run, stop]
  by_cases newAgain : ((halted pool image count).desc 0).opType = .zero
  · -- the second run takes the pool for a new one too
    have second := optmizedDescriptorPool_new metadata newAgain
    refine ⟨fun _ => ?_, fun _ => ⟨_, (createNewDescriptor pool).final (halted pool image count), rfl,
      ?_, ?_⟩⟩
    · by_cases inhabited : 0 < pool.poolSize.toNat
      · have opType : ((halted pool image count).desc 0).opType = _ :=
          (stopped_descriptor inhabited count image).2.2
        rw [newAgain] at opType
        by_cases marked : 9 * 0 + 3 < count
        · rw [if_pos marked] at opType
          cases opType
        · exact .inl (by omega)
      · exact .inr fun d inside => absurd (Nat.lt_of_le_of_lt (Nat.zero_le d) inside) inhabited
    · rw [← Program.run_of_none (creates _), Program.run, Program.run, Program.final, Program.final,
        second]
    · rw [keeps, keeps, mem]
  · -- the second run recovers
    have second := optmizedDescriptorPool_old metadata newAgain
    have inhabited : 0 < pool.poolSize.toNat := by
      by_contra none_
      have kept := (createNewDescriptor_stopAfter pool count image).2.2 0
      rw [if_neg none_] at kept
      rw [halted, kept] at newAgain
      exact newAgain new
    have marked : ¬ count ≤ 3 := by
      intro early
      have opType : ((halted pool image count).desc 0).opType = _ :=
        (stopped_descriptor inhabited count image).2.2
      rw [if_neg (by omega)] at opType
      exact newAgain (opType.trans new)
    have contractThere : Contract pool.poolSize.toNat (halted pool image count) :=
      contract_halted contract
    have runAgain : (optmizedDescriptorPool pool base).run (halted pool image count) =
        (recoverDescriptor pool.poolSize.toNat).run (halted pool image count) := by
      rw [Program.run, Program.run, Program.final, Program.final, second]
    have unnoticed : Unnoticed pool.poolSize.toNat image count ↔
        ∀ d < pool.poolSize.toNat, Undisturbed (halted pool image count) d :=
      ⟨fun all d inside => (undisturbed_halted inside).2 (all d inside),
        fun all d inside => (undisturbed_halted inside).1 (all d inside)⟩
    rw [runAgain, or_iff_right marked, unnoticed]
    constructor
    · rintro ⟨final, again, ended, passes, same⟩ d inside
      obtain ⟨ends, rfl⟩ := Program.error_of_run passes
      have passing := passing_of_recoverDescriptor contractThere (Nat.le_refl _) ends
      have reached := (recoverDescriptor_reached contractThere (Nat.le_refl _) passing _
        (stopped_start _ _)).2.2
      refine ⟨passing d inside, fun rolling => ?_⟩
      have written := reached.written d (List.mem_range.2 inside) inside rolling
      cases ended
      rw [Written, same, keeps, ← mem] at written
      exact written
    · intro undisturbed
      obtain ⟨-, ends, reached⟩ := recoverDescriptor_reached contractThere (Nat.le_refl _)
        (fun d inside => (undisturbed d inside).passing) _ (stopped_start _ _)
      refine ⟨_, _, rfl, Program.run_of_none ends, ?_⟩
      rw [keeps, ← mem]
      funext address
      rcases reached.stopped.mem address with same | ⟨d, inside, rolling, rfl, written⟩
      · exact same
      · exact written.trans ((undisturbed d inside).written rolling).symm

/-- When a stopped constructor can be run again: if it was recovering an old pool, or if it had not
marked a descriptor of a new one, or if what it had not marked was unnoticed. -/
theorem optmizedDescriptorPool_restarts_iff (contract : Contract pool.poolSize.toNat image)
    (passes : (optmizedDescriptorPool pool base image).error = none) (count : Nat) :
    Restarts (optmizedDescriptorPool pool base) OptmizedImage.mem count image ↔
      (image.desc 0).opType ≠ .zero ∨ count ≤ 3 ∨ Unnoticed pool.poolSize.toNat image count := by
  by_cases old : (image.desc 0).opType = .zero
  · rw [optmizedDescriptorPool_restarts_new old contract (accepted_of_optmized_passes passes) count,
      or_iff_right (not_not.2 old)]
  · exact ⟨fun _ => .inl old,
      fun _ => optmizedDescriptorPool_restarts_old old contract passes count⟩

end Constructor

/-! ### A pool with operations -/

/-- The memory of a pool of two descriptors after a crash: both processes have exchanged the shared
word 8 and have not written their private words, process 0 after process 1, which it has helped. -/
def inProgress : OptmizedImage where
  metadata := OptmizedPool.metadata ⟨2, 2⟩ 128
  mem address := if address = 8 then taggedValue 1 6 1 else 0
  desc d :=
    if d = 0 then { OptmizedFASASDescriptor.constructed 1 with
      sharedAddress := 8, oldShareVarValue := 5, newShareVarValue := 6, privateAddress := 16,
      statusInfo := ⟨1, false⟩, isPrivateAddrSet := false }
    else { OptmizedFASASDescriptor.constructed 2 with
      sharedAddress := 8, oldShareVarValue := 4, newShareVarValue := 5, privateAddress := 24,
      statusInfo := ⟨1, true⟩, isPrivateAddrSet := false }

theorem contract_inProgress : Contract 2 inProgress where
  typed := by decide
  apart := by decide
  own := by decide

/-- A recovery that was stopped between the stores for the two private words. -/
theorem optmizedDescriptorPool_restarts_iff_inProgress :
    rolls inProgress 0 = true ∧ rolls inProgress 1 = true ∧
      Restarts (optmizedDescriptorPool ⟨2, 2⟩ 128) OptmizedImage.mem 2 inProgress := by
  have passes : (optmizedDescriptorPool ⟨2, 2⟩ 128 inProgress).error = none := by decide +kernel
  have contract : Contract (OptmizedPool.poolSize ⟨2, 2⟩).toNat inProgress := contract_inProgress
  refine ⟨by decide, by decide, (optmizedDescriptorPool_restarts_iff contract passes 2).2 (.inl ?_)⟩
  decide

end OptmizedFasas

end Pmwcas
