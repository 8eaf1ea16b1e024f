/-
This file is about a constructor `DescriptorPool::DescriptorPool` that is stopped between two of its
stores and run again.

Recovery settles one entry after the other: the word of a settled entry is not dirty and no pointer
to the descriptor or to the entry, and as the old and new values are clean and no addresses of the
pool, no later store of recovery unsettles it. So a stopped recovery resumes. A stopped clearing
leaves a pool that looks new, since the first store makes the status of the first descriptor
Invalid. A stopped construction, however, leaves a first descriptor that is Finished and a last one
that is Invalid, and this is what the constructor takes for a corrupted pool.
-/

import Pmwcas.Library.Restart
import Pmwcas.RecoveryCorrectness

namespace Pmwcas

open Stores

variable {pool : Pool}

/-! ### Settled words -/

/-- Entry `w` of descriptor `d` has nothing left to do with this word. -/
structure Word.Settled (pool : Pool) (d w : Nat) (word : Word) : Prop where
  notDirty : word.dirty = false
  notDescriptor : word.rest ≠ pool.descriptorAddress d
  notWord : word.rest ≠ pool.wordAddress d w

/-- A clean value that is no address of the pool. -/
def Word.Inert (pool : Pool) (word : Word) : Prop := word.isCleanPtr = true ∧ pool.Foreign word

theorem Word.Inert.settled {word : Word} (inert : word.Inert pool) {d w : Nat} (inside : d < pool.size)
    (entry : w < kMaxCount) : word.Settled pool d w := by
  refine ⟨?_, (inert.2 d inside).1, (inert.2 d inside).2 w entry⟩
  have clean := inert.1
  cases dirty : word.dirty with
  | false => rfl
  | true => simp [Word.isCleanPtr, dirty] at clean

/-- The values of the operations in the image are such as callers may use: clean, and no addresses
of the pool. -/
def Image.ContractValues (pool : Pool) (image : Image) : Prop :=
  ∀ d, d < pool.size → (image.desc d).status.code.InUse →
    (image.desc d).count ≤ kMaxCount ∧ ∀ w, w < (image.desc d).count →
      ((image.desc d).words w).oldValue.Inert pool ∧ ((image.desc d).words w).newValue.Inert pool

/-- Recovery has stored to target words only. -/
def Image.SameDescriptors (start image : Image) : Prop :=
  image.desc = start.desc ∧ image.metadata = start.metadata

/-- Entry `w` of descriptor `d` is settled. -/
def Image.SettledEntry (pool : Pool) (start : Image) (d w : Nat) (image : Image) : Prop :=
  ((start.desc d).words w).address ≠ 0 ∧
    (image.mem ((start.desc d).words w).address).Settled pool d w

/-! ### One entry -/

section

variable {start : Image} {d w : Nat}

/-- Recovery of an entry, for a descriptor with this status. -/
def rollWord (pool : Pool) (code : StatusCode) (d w : Nat) : Program Image Abort :=
  if code = .succeeded then rollForwardWord pool d w else rollBackWord pool d w

theorem Image.target_eq {image : Image} (same : start.SameDescriptors image) :
    image.target d w = image.mem ((start.desc d).words w).address := by
  rw [Image.target, same.1]

theorem Image.SameDescriptors.storeWord {image : Image} (same : start.SameDescriptors image)
    (address : Nat) (word : Word) : start.SameDescriptors (image.storeWord address word) := same

/-- A store to a target word that clears the dirty bit or brings an inert value unsettles nothing. -/
theorem Word.Settled.storeWord {image : Image} {e j address stored : Nat} {word : Word}
    (settled : (image.mem address).Settled pool e j)
    (harmless : word = (image.mem stored).clearDirty ∨ word.Settled pool e j) :
    ((image.storeWord stored word).mem address).Settled pool e j := by
  by_cases here : address = stored
  · subst here
    rw [show (image.storeWord address word).mem address = word from Function.update_self _ _ _]
    rcases harmless with rfl | inert
    · exact ⟨rfl, settled.notDescriptor, settled.notWord⟩
    · exact inert
  · rw [show (image.storeWord stored word).mem address = image.mem address from
      Function.update_of_ne here _ _]
    exact settled

theorem clearTargetDirty_keeps (pool : Pool) (start : Image) (d w e j address : Nat) :
    Keeps (clearTargetDirty d w) (start.SameDescriptors ·) ∧
      Keeps (clearTargetDirty d w) fun image => start.SameDescriptors image ∧
        (image.mem address).Settled pool e j := by
  refine ⟨.branch (.store ?_) (fun _ _ _ impossible => absurd impossible List.not_mem_nil),
    .branch (.store ?_) (fun _ _ _ impossible => absurd impossible List.not_mem_nil)⟩
  · exact fun image same => same.storeWord _ _
  · exact fun image holds => ⟨holds.1.storeWord _ _, holds.2.storeWord (Or.inl rfl)⟩

/-- A store of a final value, where there is a pointer to be replaced. -/
def replacePtr (test : Image → Bool) (d w : Nat) (value : WordDescriptor → Word) :
    Program Image Abort :=
  .branch test (.store fun image => image.storeWord ((image.desc d).words w).address
    (value ((image.desc d).words w))) .pass

theorem replacePtr_keeps (test : Image → Bool) (value : WordDescriptor → Word) (address : Nat)
    {e j : Nat} (inert : (value ((start.desc d).words w)).Inert pool)
    (inside : e < pool.size) (entry : j < kMaxCount) :
    Keeps (replacePtr test d w value) (start.SameDescriptors ·) ∧
      Keeps (replacePtr test d w value) fun image => start.SameDescriptors image ∧
        (image.mem address).Settled pool e j := by
  refine ⟨.branch (.store ?_) (fun _ _ _ impossible => absurd impossible List.not_mem_nil),
    .branch (.store ?_) (fun _ _ _ impossible => absurd impossible List.not_mem_nil)⟩
  · exact fun image same => same.storeWord _ _
  · intro image holds
    refine ⟨holds.1.storeWord _ _, holds.2.storeWord (Or.inr ?_)⟩
    rw [holds.1.1]
    exact inert.settled inside entry

theorem clearTargetDirty_final (image : Image) :
    (clearTargetDirty d w).final image =
      image.storeWord ((image.desc d).words w).address (image.target d w).clearDirty := by
  unfold Program.final clearTargetDirty Program.branch
  split
  · rfl
  · rename_i clean
    have same : (image.target d w).clearDirty = image.mem ((image.desc d).words w).address := by
      refine Word.ext rfl rfl ?_ rfl
      simpa [Word.isDirtyPtr, Image.target] using clean
    rw [same, Image.storeWord, Function.update_eq_self]
    rfl

theorem clearTargetDirty_quiet {image : Image} (clean : (image.target d w).dirty = false) :
    Quiet (clearTargetDirty d w) image := by
  refine .branch (fun dirty => ?_) fun _ => rfl
  rw [Word.isDirtyPtr, clean] at dirty
  cases dirty

theorem clearTargetDirty_resumes (image : Image) : Resumes (clearTargetDirty d w) image := by
  refine .of_quiet_final ?_ fun _ _ => clearTargetDirty_quiet ?_
  · intro other member
    unfold clearTargetDirty Program.branch at member
    split at member
    · rename_i dirty
      rw [clearTargetDirty_final]
      exact List.mem_singleton.mp member
    · cases member
  · rw [clearTargetDirty_final, Image.target, Image.storeWord_desc]
    show (Function.update image.mem _ _ _).dirty = false
    rw [Function.update_self]
    rfl

variable {test : Image → Bool} {value : WordDescriptor → Word}

theorem replacePtr_quiet {image : Image} (differs : test image = false) :
    Quiet (replacePtr test d w value) image := by
  refine .branch (fun replaces => ?_) fun _ => rfl
  rw [differs] at replaces
  cases replaces

theorem replacePtr_images {image other : Image} (same : start.SameDescriptors image)
    (member : other ∈ (replacePtr test d w value image).images) :
    other = (replacePtr test d w value).final image ∧
      other = image.storeWord ((start.desc d).words w).address (value ((start.desc d).words w)) := by
  unfold Program.final
  unfold replacePtr Program.branch at member ⊢
  split at member
  · cases List.mem_singleton.mp member
    rename_i replaces
    rw [if_pos replaces]
    refine ⟨rfl, ?_⟩
    show image.storeWord ((image.desc d).words w).address (value ((image.desc d).words w)) = _
    rw [same.1]
  · cases member

theorem replacePtr_written {image other : Image} (same : start.SameDescriptors image)
    (inert : (value ((start.desc d).words w)).Inert pool)
    (member : other ∈ (replacePtr test d w value image).images) :
    start.SameDescriptors other ∧ (other.target d w).Inert pool := by
  obtain ⟨-, written⟩ := replacePtr_images same member
  rw [written]
  refine ⟨same.storeWord _ _, ?_⟩
  rw [Image.target, Image.storeWord_desc, same.1]
  show (Function.update image.mem _ _ _).Inert pool
  rw [Function.update_self]
  exact inert

theorem replacePtr_resumes {image : Image} (same : start.SameDescriptors image)
    (inert : (value ((start.desc d).words w)).Inert pool)
    (differs : ∀ other : Image, (other.target d w).Inert pool → test other = false) :
    Resumes (replacePtr test d w value) image := by
  refine .of_quiet_final (fun other member => (replacePtr_images same member).1) ?_
  intro _ some
  obtain ⟨other, member⟩ := List.exists_mem_of_ne_nil _ some
  rw [← (replacePtr_images same member).1]
  exact replacePtr_quiet (differs other (replacePtr_written same inert member).2)

variable {code : StatusCode}

/-- Whether a rolled back entry replaces the word. -/
def pointsBack (pool : Pool) (d w : Nat) (image : Image) : Bool :=
  (image.target d w).cleanPtr == .plain (pool.descriptorAddress d) ||
    (image.target d w).cleanPtr == .plain (pool.wordAddress d w)

/-- Whether a rolled forward entry replaces the word. -/
def pointsForward (pool : Pool) (d : Nat) (w : Nat) (image : Image) : Bool :=
  (image.target d w).cleanPtr == .plain (pool.descriptorAddress d)

theorem rollBackWord_eq : rollBackWord pool d w = (accessTarget d w).andThen
    ((clearTargetDirty d w).andThen (replacePtr (pointsBack pool d w) d w (·.oldValue))) := rfl

theorem rollForwardWord_eq : rollForwardWord pool d w = (accessTarget d w).andThen
    ((clearTargetDirty d w).andThen ((Program.check (.rawCheck .invalidFieldValue) fun image =>
      (image.target d w).cleanPtr != .plain (pool.wordAddress d w)).andThen
        (replacePtr (pointsForward pool d w) d w (·.newValue)))) := rfl

theorem pointsBack_eq_false {image : Image} :
    pointsBack pool d w image = false ↔ (image.target d w).rest ≠ pool.descriptorAddress d ∧
      (image.target d w).rest ≠ pool.wordAddress d w := by
  simp [pointsBack, Word.cleanPtr_beq]

theorem pointsForward_eq_false {image : Image} :
    pointsForward pool d w image = false ↔ (image.target d w).rest ≠ pool.descriptorAddress d := by
  simp [pointsForward, Word.cleanPtr_beq]

section

variable (inside : d < pool.size) (entry : w < kMaxCount)
  (old : ((start.desc d).words w).oldValue.Inert pool)
  (new : ((start.desc d).words w).newValue.Inert pool)

include old new

theorem rollWord_keeps (code : StatusCode) (address : Nat) {e j : Nat} (insideOther : e < pool.size) (entryOther : j < kMaxCount) :
    Keeps (rollWord pool code d w) (start.SameDescriptors ·) ∧
      Keeps (rollWord pool code d w) fun image => start.SameDescriptors image ∧
        (image.mem address).Settled pool e j := by
  have clears := clearTargetDirty_keeps pool start d w e j address
  unfold rollWord
  split
  · have replaces := replacePtr_keeps (pointsForward pool d w) (·.newValue) address new insideOther entryOther
    exact ⟨.andThen (.check _ _) (.andThen clears.1 (.andThen (.check _ _) replaces.1)),
      .andThen (.check _ _) (.andThen clears.2 (.andThen (.check _ _) replaces.2))⟩
  · have replaces := replacePtr_keeps (pointsBack pool d w) (·.oldValue) address old insideOther entryOther
    exact ⟨.andThen (.check _ _) (.andThen clears.1 replaces.1),
      .andThen (.check _ _) (.andThen clears.2 replaces.2)⟩

/-- An entry whose recovery has passed is settled. -/
theorem rollWord_ensures (inside : d < pool.size) (entry : w < kMaxCount) :
    Ensures (start.SameDescriptors ·) (rollWord pool code d w)
      fun image => start.SameDescriptors image ∧ start.SettledEntry pool d w image := by
  have clears : Ensures
      (fun image => start.SameDescriptors image ∧ ((start.desc d).words w).address ≠ 0)
      (clearTargetDirty d w) (fun image => start.SameDescriptors image ∧
        ((start.desc d).words w).address ≠ 0 ∧ (image.target d w).dirty = false) := by
    rintro image ⟨same, present⟩ -
    rw [clearTargetDirty_final]
    refine ⟨same.storeWord _ _, present, ?_⟩
    rw [Image.target, Image.storeWord_desc]
    show (Function.update image.mem _ _ _).dirty = false
    rw [Function.update_self]
    rfl
  have access : Ensures (start.SameDescriptors ·) (accessTarget d w)
      fun image => start.SameDescriptors image ∧ ((start.desc d).words w).address ≠ 0 := by
    intro image same ends
    have present : ((image.desc d).words w).address ≠ 0 :=
      bne_iff_ne.mp (Program.test_of_check ends)
    rw [same.1] at present
    exact ⟨same, present⟩
  have stored : ∀ {value : WordDescriptor → Word} {image : Image}, start.SameDescriptors image →
      ((start.desc d).words w).address ≠ 0 → (value ((start.desc d).words w)).Inert pool →
      start.SameDescriptors (image.storeWord ((image.desc d).words w).address
        (value ((image.desc d).words w))) ∧
      start.SettledEntry pool d w (image.storeWord ((image.desc d).words w).address
        (value ((image.desc d).words w))) := by
    intro value image same present inert
    refine ⟨same.storeWord _ _, present, ?_⟩
    rw [same.1]
    show (Function.update image.mem _ _ _).Settled pool d w
    rw [Function.update_self]
    exact inert.settled inside entry
  unfold rollWord
  split
  · rw [rollForwardWord_eq]
    refine .andThen access (.andThen clears (.andThen .check (.branch (.store ?_) (.pass ?_))))
    · rintro image ⟨⟨⟨same, present, -⟩, -⟩, -⟩
      exact stored same present new
    · rintro image ⟨⟨⟨same, present, clean⟩, notWord⟩, notDescriptor⟩
      refine ⟨same, present, ?_⟩
      rw [← Image.target_eq same]
      refine ⟨clean, pointsForward_eq_false.mp notDescriptor, ?_⟩
      simpa [bne, Word.cleanPtr_beq] using notWord
  · rw [rollBackWord_eq]
    refine .andThen access (.andThen clears (.branch (.store ?_) (.pass ?_)))
    · rintro image ⟨⟨same, present, -⟩, -⟩
      exact stored same present old
    · rintro image ⟨⟨same, present, clean⟩, differs⟩
      obtain ⟨notDescriptor, notWord⟩ := pointsBack_eq_false.mp differs
      refine ⟨same, present, ?_⟩
      rw [← Image.target_eq same]
      exact ⟨clean, notDescriptor, notWord⟩

omit old new in
theorem rollWord_quiet {image : Image} (same : start.SameDescriptors image)
    (settled : start.SettledEntry pool d w image) : Quiet (rollWord pool code d w) image := by
  obtain ⟨present, word⟩ := settled
  rw [← Image.target_eq same] at word
  have access : Quiet (accessTarget d w) image := by
    refine .check ?_
    rw [same.1]
    exact bne_iff_ne.mpr present
  unfold rollWord
  split
  · rw [rollForwardWord_eq]
    refine access.andThen ((clearTargetDirty_quiet word.notDirty).andThen ((Quiet.check ?_).andThen
      (replacePtr_quiet (pointsForward_eq_false.mpr word.notDescriptor))))
    simpa [bne, Word.cleanPtr_beq] using word.notWord
  · rw [rollBackWord_eq]
    exact access.andThen ((clearTargetDirty_quiet word.notDirty).andThen
      (replacePtr_quiet (pointsBack_eq_false.mpr ⟨word.notDescriptor, word.notWord⟩)))

/-- Recovery of an entry that is stopped and run again ends in the same way. -/
theorem rollWord_resumes (inside : d < pool.size) (entry : w < kMaxCount) {image : Image}
    (same : start.SameDescriptors image) : Resumes (rollWord pool code d w) image := by
  have cleared : start.SameDescriptors ((clearTargetDirty d w).final image) :=
    (clearTargetDirty_keeps pool start d w d w 0).1.final same
  have notDirty : ∀ {other : Image}, (other.target d w).Inert pool →
      Quiet (clearTargetDirty d w) other :=
    fun inert => clearTargetDirty_quiet (inert.settled inside entry).notDirty
  have access : ∀ {rest : Program Image Abort}, Keeps rest (start.SameDescriptors ·) →
      Resumes rest image → Resumes ((accessTarget d w).andThen rest) image := by
    intro rest keeps resumes
    refine .andThen (.of_no_stores rfl) (fun _ => resumes) ?_
    intro passes other member
    have present : ((image.desc d).words w).address != 0 := Program.test_of_check passes
    refine .check ?_
    rw [(keeps image same other member).1, ← same.1]
    exact present
  unfold rollWord
  split
  · rw [rollForwardWord_eq]
    have replaces := (replacePtr_keeps (pointsForward pool d w) (·.newValue) 0 new inside entry).1
    have differs : ∀ other : Image, (other.target d w).Inert pool →
        pointsForward pool d w other = false :=
      fun other inert => pointsForward_eq_false.mpr (inert.settled inside entry).notDescriptor
    have checked : ∀ {other : Image}, (other.target d w).Inert pool →
        ((other.target d w).cleanPtr != Word.plain (pool.wordAddress d w)) = true := by
      intro other inert
      simpa [bne, Word.cleanPtr_beq] using (inert.settled inside entry).notWord
    refine access (.andThen (clearTargetDirty_keeps pool start d w d w 0).1
      (.andThen (.check _ _) replaces)) (.andThen (clearTargetDirty_resumes image) ?_ ?_)
    · refine fun _ => .andThen (.of_no_stores rfl) (fun _ => replacePtr_resumes cleared new differs) ?_
      intro _ other member
      exact .check (checked (replacePtr_written cleared new member).2)
    · intro _ other member
      exact notDirty (replacePtr_written cleared new (Program.mem_images_of_check member)).2
  · rw [rollBackWord_eq]
    have replaces := (replacePtr_keeps (pointsBack pool d w) (·.oldValue) 0 old inside entry).1
    have differs : ∀ other : Image, (other.target d w).Inert pool →
        pointsBack pool d w other = false := by
      intro other inert
      have settled := inert.settled inside entry
      exact pointsBack_eq_false.mpr ⟨settled.notDescriptor, settled.notWord⟩
    refine access (.andThen (clearTargetDirty_keeps pool start d w d w 0).1 replaces)
      (.andThen (clearTargetDirty_resumes image)
        (fun _ => replacePtr_resumes cleared old differs) ?_)
    intro _ other member
    exact notDirty (replacePtr_written cleared old member).2

end

end

/-! ### One descriptor -/

/-- The descriptor has nothing left to do with its words. -/
def Image.SettledDescriptor (pool : Pool) (start : Image) (d : Nat) (image : Image) : Prop :=
  (start.desc d).status.code ≠ .invalid ∧ ((start.desc d).status.code ≠ .finished →
    ∀ w, w < (start.desc d).count → start.SettledEntry pool d w image)

theorem StatusCode.inUse_of_ne {code : StatusCode} (valid : code ≠ .invalid)
    (unfinished : code ≠ .finished) : code.InUse := by
  cases code with
  | invalid => exact absurd rfl valid
  | finished => exact absurd rfl unfinished
  | undecided => exact Or.inl rfl
  | succeeded => exact Or.inr (Or.inl rfl)
  | failed => exact Or.inr (Or.inr rfl)

section

variable {start : Image} (ok : start.ContractValues pool) {d : Nat} (inside : d < pool.size)

include ok inside

theorem rollWord_stays {code : StatusCode} {w e j : Nat} (used : (start.desc d).status.code.InUse)
    (entry : w < (start.desc d).count) (insideOther : e < pool.size) (entryOther : j < kMaxCount) :
    Keeps (rollWord pool code d w) fun image => start.SameDescriptors image ∧
      start.SettledEntry pool e j image := by
  obtain ⟨-, values⟩ := ok d inside used
  have keeps := (rollWord_keeps (values w entry).1 (values w entry).2 code
    ((start.desc e).words j).address insideOther entryOther).2
  rintro image ⟨same, present, settled⟩ other member
  obtain ⟨sameOther, settledOther⟩ := keeps image ⟨same, settled⟩ other member
  exact ⟨sameOther, present, settledOther⟩

theorem entries_settling (code : StatusCode) (used : (start.desc d).status.code.InUse) :
    Settling (start.SameDescriptors ·) (start.SettledEntry pool d ·) (rollWord pool code d)
      (List.range (start.desc d).count) := by
  obtain ⟨bound, values⟩ := ok d inside used
  have entry : ∀ {w}, w ∈ List.range (start.desc d).count → w < (start.desc d).count :=
    fun member => List.mem_range.mp member
  have room : ∀ {w}, w ∈ List.range (start.desc d).count → w < kMaxCount :=
    fun member => Nat.lt_of_lt_of_le (entry member) bound
  constructor
  · intro w member
    obtain ⟨old, new⟩ := values w (entry member)
    exact (rollWord_keeps old new code 0 inside (room member)).1
  · intro w member other memberOther
    exact rollWord_stays ok inside used (entry member) inside (room memberOther)
  · intro w member image same ends
    obtain ⟨old, new⟩ := values w (entry member)
    exact (rollWord_ensures old new inside (room member) image same ends).2
  · intro w member image same settled
    exact rollWord_quiet same settled
  · intro w member image same
    obtain ⟨old, new⟩ := values w (entry member)
    exact rollWord_resumes old new inside (room member) same

omit ok inside in
theorem rollEntries_eq (code : StatusCode) :
    (if code = .succeeded then rollForwardWord pool d else rollBackWord pool d) =
      rollWord pool code d := by
  funext w
  unfold rollWord
  split <;> rfl

omit ok inside in
theorem checkWord_images (w : Nat) (image : Image) : (checkWord pool d w image).images = [] := by
  refine List.eq_nil_iff_forall_not_mem.mpr ?_
  intro other member
  have last := Program.mem_images_of_check (Program.mem_images_of_check member)
  cases last

omit ok inside in
theorem checkWord_quiet {w : Nat} {image : Image} (same : start.SameDescriptors image)
    (settled : start.SettledEntry pool d w image) : Quiet (checkWord pool d w) image := by
  obtain ⟨present, word⟩ := settled
  rw [← Image.target_eq same] at word
  have differs : ∀ pointer : Word, pointer.rest = pool.descriptorAddress d →
      (image.target d w).clearDirty != pointer := by
    intro pointer rest
    refine bne_iff_ne.mpr ?_
    rintro rfl
    exact word.notDescriptor rest
  refine (Quiet.check ?_).andThen ((Quiet.check ?_).andThen (Quiet.check ?_))
  · rw [same.1]
    exact bne_iff_ne.mpr present
  · exact differs _ rfl
  · exact differs _ rfl

omit ok inside in
theorem forEach_images_nil {Item : Type} {body : Item → Program Image Abort}
    (nothing : ∀ item image, (body item image).images = []) (items : List Item) (image : Image) :
    (Program.forEach body items image).images = [] := by
  induction items generalizing image with
  | nil => rfl
  | cons item rest inductionHypothesis =>
    unfold Program.forEach Program.andThen
    split
    · rw [nothing, List.nil_append]
      exact inductionHypothesis _
    · exact nothing item image

/-- The part of the recovery loop after the check of the status. -/
def recoverEntries (pool : Pool) (d : Nat) (code : StatusCode) : Program Image Abort :=
  if code = .finished then .pass
  else (forEntries d (rollWord pool code d)).andThen (forEntries d (checkWord pool d))

omit ok inside in
theorem recoverDescriptor_eq : recoverDescriptor pool d =
    (Program.check (.rawCheck .invalidStatus) fun image =>
      (image.desc d).status.code != .invalid).andThen
    (.read (fun image => (image.desc d).status.code) (recoverEntries pool d)) := by
  unfold recoverDescriptor recoverEntries
  congr 2
  funext code
  rw [rollEntries_eq]

omit ok inside in
/-- The loop over the entries, from an image with the descriptors of `start`. -/
theorem forEntries_keeps {code : StatusCode} (invariant : Image → Prop)
    (each : ∀ w, w < (start.desc d).count → Keeps (rollWord pool code d w)
      fun image => start.SameDescriptors image ∧ invariant image) :
    Keeps ((forEntries d (rollWord pool code d)).andThen (forEntries d (checkWord pool d)))
      fun image => start.SameDescriptors image ∧ invariant image := by
  refine .andThen ?_ ?_
  · rintro image ⟨same, holds⟩
    have count : (image.desc d).count = (start.desc d).count := by rw [same.1]
    show ∀ other ∈ (Program.forEach (rollWord pool code d) (List.range (image.desc d).count)
      image).images, _
    rw [count]
    refine Keeps.forEach _ ?_ image ⟨same, holds⟩
    exact fun w member => each w (List.mem_range.mp member)
  · intro image _ other member
    have nothing : (forEntries d (checkWord pool d) image).images = [] :=
      forEach_images_nil checkWord_images _ _
    rw [nothing] at member
    cases member

theorem recoverEntries_keeps (used : (start.desc d).status.code ≠ .finished →
      (start.desc d).status.code.InUse) :
    Keeps (recoverEntries pool d (start.desc d).status.code) (start.SameDescriptors ·) := by
  unfold recoverEntries
  split
  · exact fun _ _ _ impossible => absurd impossible List.not_mem_nil
  · rename_i unfinished
    obtain ⟨bound, values⟩ := ok d inside (used unfinished)
    intro image same other member
    refine (forEntries_keeps (fun _ => True) ?_ image ⟨same, trivial⟩ other member).1
    intro w entry before holds after stored
    have keeps := (rollWord_keeps (values w entry).1 (values w entry).2
      (start.desc d).status.code 0 inside (Nat.lt_of_lt_of_le entry bound)).1
    exact ⟨keeps before holds.1 after stored, trivial⟩

theorem recoverEntries_stays {e j : Nat} (used : (start.desc d).status.code ≠ .finished →
      (start.desc d).status.code.InUse) (insideOther : e < pool.size) (entryOther : j < kMaxCount) :
    Keeps (recoverEntries pool d (start.desc d).status.code)
      fun image => start.SameDescriptors image ∧ start.SettledEntry pool e j image := by
  unfold recoverEntries
  split
  · exact fun _ _ _ impossible => absurd impossible List.not_mem_nil
  · rename_i unfinished
    exact forEntries_keeps _ fun w entry =>
      rollWord_stays ok inside (used unfinished) entry insideOther entryOther

theorem recoverEntries_resumes (used : (start.desc d).status.code ≠ .finished →
      (start.desc d).status.code.InUse) {image : Image} (same : start.SameDescriptors image) :
    Resumes (recoverEntries pool d (start.desc d).status.code) image := by
  have count : ∀ {other : Image}, start.SameDescriptors other →
      (other.desc d).count = (start.desc d).count := by
    intro other sameOther
    rw [sameOther.1]
  unfold recoverEntries
  split
  · exact .of_no_stores rfl
  · rename_i unfinished
    have settling := entries_settling ok inside (start.desc d).status.code (used unfinished)
    refine .andThen (.read ?_ ?_) (fun _ => .of_no_stores (forEach_images_nil checkWord_images _ _)) ?_
    · rw [count same]
      exact settling.resumes_forEach same
    · intro other member
      rw [count same] at member ⊢
      exact count (settling.keeps_forEach image same other member)
    · intro _ other member
      rw [show (forEntries d (checkWord pool d) _).images = [] from
        forEach_images_nil checkWord_images _ _] at member
      cases member

theorem recoverEntries_ensures (used : (start.desc d).status.code ≠ .finished →
      (start.desc d).status.code.InUse) :
    Ensures (start.SameDescriptors ·) (recoverEntries pool d (start.desc d).status.code)
      fun image => (start.desc d).status.code ≠ .finished →
        ∀ w, w < (start.desc d).count → start.SettledEntry pool d w image := by
  unfold recoverEntries
  split
  · rename_i finished
    exact fun image same ends unfinished => absurd finished unfinished
  · rename_i unfinished
    have settling := entries_settling ok inside (start.desc d).status.code (used unfinished)
    have rolls : Ensures (start.SameDescriptors ·)
        (forEntries d (rollWord pool (start.desc d).status.code d)) fun image =>
          ∀ w, w < (start.desc d).count → start.SettledEntry pool d w image := by
      intro image same ends w entry
      have count : (image.desc d).count = (start.desc d).count := by rw [same.1]
      have program : forEntries d (rollWord pool (start.desc d).status.code d) image =
          Program.forEach (rollWord pool (start.desc d).status.code d)
            (List.range (start.desc d).count) image := by
        rw [← count]
        rfl
      unfold Program.final
      rw [program] at ends ⊢
      exact settling.settled_forEach same ends w (List.mem_range.mpr entry)
    refine .andThen rolls ?_
    intro image settled ends _
    unfold Program.final
    rw [show (forEntries d (checkWord pool d) image).images = [] from
      forEach_images_nil checkWord_images _ _]
    exact settled

omit ok inside in
theorem recoverEntries_quiet {image : Image} (same : start.SameDescriptors image)
    (settled : (start.desc d).status.code ≠ .finished → ∀ w, w < (start.desc d).count →
      start.SettledEntry pool d w image) :
    Quiet (recoverEntries pool d (start.desc d).status.code) image := by
  unfold recoverEntries
  split
  · rfl
  · rename_i unfinished
    have entry : ∀ {w}, w ∈ List.range (image.desc d).count → w < (start.desc d).count := by
      intro w member
      rw [← same.1]
      exact List.mem_range.mp member
    refine Quiet.andThen ?_ ?_
    · exact Quiet.forEach fun w member => rollWord_quiet same (settled unfinished w (entry member))
    · exact Quiet.forEach fun w member => checkWord_quiet same (settled unfinished w (entry member))

end

/-! ### The recovery loop -/

section

variable {start : Image} (ok : start.ContractValues pool)

theorem valid_of_passes {d : Nat} {image : Image} (same : start.SameDescriptors image)
    (passes : (recoverDescriptor pool d image).error = none) :
    (start.desc d).status.code ≠ .invalid := by
  have checked := Program.test_of_check (Program.error_first_of_andThen passes)
  have valid : ((image.desc d).status.code != .invalid) = true := checked
  rw [same.1] at valid
  exact bne_iff_ne.mp valid

include ok

theorem recoverDescriptor_keeps {d : Nat} (inside : d < pool.size)
    (valid : (start.desc d).status.code ≠ .invalid) :
    Keeps (recoverDescriptor pool d) (start.SameDescriptors ·) := by
  rw [recoverDescriptor_eq]
  refine .andThen (.check _ _) ?_
  intro image same
  show ∀ other ∈ (recoverEntries pool d (image.desc d).status.code image).images, _
  rw [same.1]
  exact recoverEntries_keeps ok inside (StatusCode.inUse_of_ne valid) image same

theorem descriptors_settling {descriptors : List Nat}
    (valid : ∀ d ∈ descriptors, d < pool.size ∧ (start.desc d).status.code ≠ .invalid) :
    Settling (start.SameDescriptors ·) (start.SettledDescriptor pool ·) (recoverDescriptor pool)
      descriptors := by
  have code : ∀ {image : Image}, start.SameDescriptors image → ∀ d,
      (image.desc d).status.code = (start.desc d).status.code := by
    intro image same d
    rw [same.1]
  constructor
  · intro d member
    exact recoverDescriptor_keeps ok (valid d member).1 (valid d member).2
  · intro d member e memberOther
    obtain ⟨inside, isValid⟩ := valid d member
    have used := StatusCode.inUse_of_ne isValid
    rw [recoverDescriptor_eq]
    refine .andThen (.check _ _) ?_
    rintro image ⟨same, settled⟩ other stored
    have stored : other ∈ (recoverEntries pool d (start.desc d).status.code image).images := by
      rw [← code same d]
      exact stored
    refine ⟨recoverEntries_keeps ok inside used image same other stored, settled.1, ?_⟩
    intro unfinished w entry
    obtain ⟨insideOther, validOther⟩ := valid e memberOther
    have bound := (ok e insideOther (StatusCode.inUse_of_ne validOther unfinished)).1
    exact (recoverEntries_stays ok inside used insideOther (Nat.lt_of_lt_of_le entry bound) image
      ⟨same, settled.2 unfinished w entry⟩ other stored).2
  · intro d member image same ends
    obtain ⟨inside, isValid⟩ := valid d member
    refine ⟨isValid, ?_⟩
    rw [recoverDescriptor_eq] at ends ⊢
    have passes := Program.error_first_of_andThen ends
    rw [Program.error_andThen passes] at ends
    rw [Program.final_andThen passes]
    have later := recoverEntries_ensures ok inside (StatusCode.inUse_of_ne isValid) image same
    have entries : (Program.read (fun image => (image.desc d).status.code) (recoverEntries pool d))
        image = recoverEntries pool d (start.desc d).status.code image := by
      rw [← code same d]
      rfl
    have final : (Program.read (fun image => (image.desc d).status.code)
        (recoverEntries pool d)).final image =
        (recoverEntries pool d (start.desc d).status.code).final image := by
      unfold Program.final
      rw [entries]
    have ends : ((Program.read (fun image => (image.desc d).status.code) (recoverEntries pool d))
        image).error = none := ends
    rw [entries] at ends
    show (start.desc d).status.code ≠ .finished → ∀ w, w < (start.desc d).count →
      start.SettledEntry pool d w ((Program.read (fun image => (image.desc d).status.code)
        (recoverEntries pool d)).final image)
    rw [final]
    exact later ends
  · intro d member image same settled
    rw [recoverDescriptor_eq]
    refine (Quiet.check ?_).andThen ?_
    · rw [code same d]
      exact bne_iff_ne.mpr settled.1
    · show recoverEntries pool d (image.desc d).status.code image = _
      rw [code same d]
      exact recoverEntries_quiet same settled.2
  · intro d member image same
    obtain ⟨inside, isValid⟩ := valid d member
    have used := StatusCode.inUse_of_ne isValid
    rw [recoverDescriptor_eq]
    refine .andThen (.of_no_stores rfl) ?_ ?_
    · intro _
      refine .read ?_ ?_
      · show Resumes (recoverEntries pool d (image.desc d).status.code) image
        rw [code same d]
        exact recoverEntries_resumes ok inside used same
      · intro other stored
        have stored : other ∈ (recoverEntries pool d (image.desc d).status.code image).images := stored
        rw [code same d] at stored
        have sameOther := recoverEntries_keeps ok inside used image same other stored
        exact (code sameOther d).trans (code same d).symm
    · intro _ other stored
      have stored : other ∈ (recoverEntries pool d (image.desc d).status.code image).images := stored
      rw [code same d] at stored
      have sameOther := recoverEntries_keeps ok inside used image same other stored
      refine .check ?_
      rw [code sameOther d]
      exact bne_iff_ne.mpr isValid

/-- Without Invalid descriptors the recovery loop is a loop over descriptors. -/
theorem recoverLoop_eq {descriptors : List Nat}
    (valid : ∀ d ∈ descriptors, d < pool.size ∧ (start.desc d).status.code ≠ .invalid)
    {image : Image} (same : start.SameDescriptors image) :
    recoverLoop pool descriptors image = Program.forEach (recoverDescriptor pool) descriptors image := by
  induction descriptors generalizing image with
  | nil => rfl
  | cons d rest inductionHypothesis =>
    have isValid := (valid d List.mem_cons_self).2
    have notNew : ((image.desc d).status == .of .invalid) = false := by
      rw [same.1]
      refine beq_eq_false_iff_ne.mpr fun new => isValid ?_
      rw [new]
      rfl
    have keeps := recoverDescriptor_keeps ok (valid d List.mem_cons_self).1 isValid
    have rest : ∀ {other : Image}, start.SameDescriptors other → recoverLoop pool rest other =
        Program.forEach (recoverDescriptor pool) rest other :=
      inductionHypothesis fun e member => valid e (List.mem_cons_of_mem _ member)
    refine (Program.branch_of_false ?_).trans ?_
    · exact notNew
    · show ((recoverDescriptor pool d).andThen (recoverLoop pool _)) image =
        ((recoverDescriptor pool d).andThen _) image
      unfold Program.andThen
      rw [rest (keeps.final same)]

/-- A recovery loop that passes has met no Invalid descriptor. -/
theorem recoverLoop_valid {descriptors : List Nat} (inside : ∀ d ∈ descriptors, d < pool.size)
    (notNew : (start.desc 0).status ≠ .of .invalid) {image : Image}
    (same : start.SameDescriptors image) (passes : (recoverLoop pool descriptors image).error = none) :
    ∀ d ∈ descriptors, (start.desc d).status.code ≠ .invalid := by
  induction descriptors generalizing image with
  | nil => exact fun d member => absurd member List.not_mem_nil
  | cons d rest inductionHypothesis =>
    unfold recoverLoop Program.branch at passes
    split at passes
    · rename_i invalid
      have invalid : (image.desc d).status = .of .invalid := beq_iff_eq.mp invalid
      rw [same.1] at invalid
      have first : d = 0 := beq_iff_eq.mp (Program.test_of_check passes)
      subst first
      exact absurd invalid notNew
    · have here := Program.error_first_of_andThen passes
      rw [Program.error_andThen here] at passes
      have isValid := valid_of_passes same here
      have keeps := recoverDescriptor_keeps ok (inside d List.mem_cons_self) isValid
      have later := inductionHypothesis (fun e member => inside e (List.mem_cons_of_mem _ member))
        (keeps.final same) passes
      intro e member
      rcases List.mem_cons.mp member with rfl | rest
      · exact isValid
      · exact later e rest

theorem recover_keeps (passes : (recover pool start).error = none) :
    ∀ image ∈ (recover pool start).images, start.SameDescriptors image := by
  have range : ∀ d ∈ List.range pool.size, d < pool.size := fun d member => List.mem_range.mp member
  by_cases new : (start.desc 0).status = .of .invalid
  · have nothing : recover pool start = ⟨[], none⟩ := by
      refine Program.branch_of_true ?_
      exact beq_iff_eq.mpr new
    rw [nothing]
    exact fun image impossible => absurd impossible List.not_mem_nil
  · have loop : recover pool start = recoverLoop pool (List.range pool.size) start := by
      refine Program.branch_of_false ?_
      exact beq_eq_false_iff_ne.mpr new
    rw [loop] at passes ⊢
    have valid := recoverLoop_valid ok range new ⟨rfl, rfl⟩ passes
    have both : ∀ d ∈ List.range pool.size, d < pool.size ∧
        (start.desc d).status.code ≠ .invalid := fun d member => ⟨range d member, valid d member⟩
    rw [recoverLoop_eq ok both ⟨rfl, rfl⟩]
    exact (descriptors_settling ok both).keeps_forEach start ⟨rfl, rfl⟩

/-- A stopped recovery resumes. -/
theorem recover_resumes : Resumes (recover pool) start := by
  intro passes
  have range : ∀ d ∈ List.range pool.size, d < pool.size := fun d member => List.mem_range.mp member
  refine Resumes.branch (fun _ => ⟨.of_no_stores rfl, ?_⟩) ?_ passes
  · exact fun image impossible => absurd impossible List.not_mem_nil
  · intro notNew
    have loop : recover pool start = recoverLoop pool (List.range pool.size) start := by
      refine Program.branch_of_false ?_
      exact notNew
    rw [loop] at passes
    have valid := recoverLoop_valid ok range (beq_eq_false_iff_ne.mp notNew) ⟨rfl, rfl⟩ passes
    have both : ∀ d ∈ List.range pool.size, d < pool.size ∧
        (start.desc d).status.code ≠ .invalid := fun d member => ⟨range d member, valid d member⟩
    have loop : ∀ {image : Image}, start.SameDescriptors image →
        (recoverLoop pool (List.range pool.size)).run image =
          (Program.forEach (recoverDescriptor pool) (List.range pool.size)).run image := by
      intro image same
      unfold Program.run Program.final
      rw [recoverLoop_eq ok both same]
    have settling := descriptors_settling ok both
    rw [recoverLoop_eq ok both ⟨rfl, rfl⟩] at passes
    have stored : ∀ image ∈ (recoverLoop pool (List.range pool.size) start).images,
        start.SameDescriptors image ∧
          image ∈ (Program.forEach (recoverDescriptor pool) (List.range pool.size) start).images := by
      intro image member
      rw [recoverLoop_eq ok both ⟨rfl, rfl⟩] at member
      exact ⟨settling.keeps_forEach start ⟨rfl, rfl⟩ image member, member⟩
    refine ⟨?_, ?_⟩
    · intro _ image member
      obtain ⟨same, inLoop⟩ := stored image member
      rw [loop same, loop ⟨rfl, rfl⟩]
      exact settling.resumes_forEach ⟨rfl, rfl⟩ passes image inLoop
    · intro image member
      rw [(stored image member).1.1]
      exact notNew

end

/-! ### Clearing and construction -/

/-- Clearing and construction of all descriptors. -/
def rebuild (pool : Pool) (partitionCount : Nat) : Program Image Abort :=
  (Program.forEach clearDescriptor (List.range pool.size)).andThen <|
    (Program.check (.rawCheck .tooManyPartitions) fun _ => partitionCount < pool.size).andThen <|
    .forEach constructDescriptor (List.range pool.size)

/-- The stores of `source` to the descriptors, one after the other. -/
def storeAll (pool : Pool) (source : Descriptor) : Program Image Abort :=
  .fill (fun d field image => image.storeField d source field) Field.all pool.size

theorem storeField_desc (source : Descriptor) (d : Nat) (field : Field) (image : Image) (e : Nat) :
    (image.storeField d source field).desc e =
      if e = d then source.copyField (image.desc d) field else image.desc e := by
  unfold Image.storeField
  split
  · rename_i same
    rw [same, Image.setDesc_desc_self]
  · rename_i different
    exact Image.setDesc_desc_of_ne _ _ different

theorem storeAll_mem (source : Descriptor) (count : Nat) (image : Image) :
    ((storeAll pool source).stopAfter count image).mem = image.mem ∧
      ((storeAll pool source).stopAfter count image).metadata = image.metadata := by
  refine ⟨Program.view_fill _ _ Image.mem ?_ _ _ _, Program.view_fill _ _ Image.metadata ?_ _ _ _⟩
  · exact fun _ _ _ => rfl
  · exact fun _ _ _ => rfl

theorem storeAll_desc (source : Descriptor) (count d : Nat) (image : Image) :
    ((storeAll pool source).stopAfter count image).desc d =
      if d < pool.size then
        source.copyFields (Field.all.take (count - Field.all.length * d)) (image.desc d)
      else image.desc d :=
  Program.get_fill _ _ Image.desc (fun _ field target => source.copyField target field)
    (storeField_desc source) _ _ _ _

/-- A descriptor has its new status from the first of its stores on. -/
theorem storeAll_status {source : Descriptor} {count d : Nat} {image : Image} (inside : d < pool.size) :
    (((storeAll pool source).stopAfter count image).desc d).status =
      if Field.all.length * d < count then source.status else (image.desc d).status := by
  rw [storeAll_desc, if_pos inside]
  split
  · rename_i reached
    refine Descriptor.copyFields_prefix_status _ _ (List.take_prefix _ _) ?_
    rw [Ne, List.take_eq_nil_iff]
    rintro (nothing | empty)
    · omega
    · cases empty
  · rename_i before
    rw [Nat.sub_eq_zero_of_le (Nat.le_of_not_lt before), List.take_zero]
    rfl

theorem storeAll_length (source : Descriptor) (image : Image) :
    (storeAll pool source image).images.length = Field.all.length * pool.size :=
  Program.fill_length _ _ _ _

theorem storeAll_error (source : Descriptor) (image : Image) :
    (storeAll pool source image).error = none :=
  Program.fill_error _ _ _ _

theorem storeAll_final (source : Descriptor) (image : Image) :
    (storeAll pool source).final image =
      (storeAll pool source).stopAfter (Field.all.length * pool.size) image :=
  (Program.stopAfter_of_length_le (Nat.le_of_eq (storeAll_length source image))).symm

section

variable {partitionCount : Nat} (partitions : partitionCount < pool.size)

theorem rebuild_eq : rebuild pool partitionCount = (storeAll pool .zero).andThen
    ((Program.check (.rawCheck .tooManyPartitions) fun _ => partitionCount < pool.size).andThen
      (storeAll pool .initialized)) := rfl

include partitions

theorem construct_eq : ((Program.check (.rawCheck .tooManyPartitions) fun _ =>
      partitionCount < pool.size).andThen (storeAll pool .initialized)) =
    storeAll pool .initialized := by
  funext image
  refine (Program.andThen_of_none ?_).trans ?_
  · simp [Program.check, partitions]
  · rfl

theorem rebuild_passes (image : Image) :
    (rebuild pool partitionCount image).error = none ∧
      (rebuild pool partitionCount image).images.length = 2 * (Field.all.length * pool.size) ∧
      ((rebuild pool partitionCount).final image).mem = image.mem := by
  rw [rebuild_eq, construct_eq partitions]
  have clears : (storeAll pool .zero image).error = none := storeAll_error .zero image
  refine ⟨?_, ?_, ?_⟩
  · rw [Program.error_andThen clears]
    exact storeAll_error _ _
  · rw [Program.images_andThen clears, List.length_append, storeAll_length, storeAll_length]
    omega
  · rw [Program.final_andThen clears, storeAll_final, (storeAll_mem _ _ _).1, storeAll_final,
      (storeAll_mem _ _ _).1]

omit partitions in
theorem checkMetadata_quiet {image : Image} (accepted : image.metadata = pool.metadata) :
    Quiet (checkMetadata pool) image := by
  refine (Quiet.check ?_).andThen (Quiet.check ?_)
  · rw [accepted]
    exact beq_self_eq_true _
  · rw [accepted]
    exact beq_self_eq_true _

omit partitions in
/-- A pool that looks new. -/
theorem recover_quiet_of_new {image : Image} (new : (image.desc 0).status = .of .invalid) :
    Quiet (recover pool) image := by
  refine .branch (fun _ => rfl) ?_
  rw [new]
  intro impossible
  cases impossible

omit partitions in
/-- A pool in which all descriptors are free. -/
theorem recover_quiet_of_finished {image : Image}
    (finished : ∀ d, d < pool.size → (image.desc d).status = .of .finished) :
    Quiet (recover pool) image := by
  have loop : ∀ descriptors : List Nat, (∀ d ∈ descriptors, d < pool.size) →
      Quiet (recoverLoop pool descriptors) image := by
    intro descriptors inside
    induction descriptors with
    | nil => rfl
    | cons d rest inductionHypothesis =>
      have status := finished d (inside d List.mem_cons_self)
      refine .branch ?_ fun _ => Quiet.andThen ?_
        (inductionHypothesis fun e member => inside e (List.mem_cons_of_mem _ member))
      · rw [status]
        intro impossible
        cases impossible
      · refine Quiet.andThen (.check ?_) ?_
        · rw [status]
          rfl
        · show (if (image.desc d).status.code = .finished then Program.pass else _) image = _
          rw [status]
          rfl
  refine .branch (fun _ => rfl) fun _ => loop _ fun d member => List.mem_range.mp member

end

/-! ### The constructor, stopped and run again -/

section

variable {partitionCount : Nat} {image : Image}

theorem accepted_of_passes (passes : (descriptorPool pool partitionCount image).error = none) :
    image.metadata = pool.metadata := by
  have metadata := Program.error_first_of_andThen passes
  have first := Program.test_of_check (Program.error_first_of_andThen metadata)
  rw [checkMetadata, Program.error_andThen (Program.error_first_of_andThen metadata)] at metadata
  have second := Program.test_of_check metadata
  have first : image.metadata.initialAddress = pool.base - sizeofMetadata := beq_iff_eq.mp first
  have second : image.metadata.descriptorCount = pool.size := beq_iff_eq.mp second
  cases content : image.metadata with
  | mk descriptorCount initialAddress =>
    rw [content] at first second
    rw [Pool.metadata, ← first, ← second]

theorem descriptorPool_of_accepted (accepted : image.metadata = pool.metadata) :
    descriptorPool pool partitionCount image =
      ((recover pool).andThen (rebuild pool partitionCount)) image :=
  (checkMetadata_quiet accepted).andThen_eq

/-- What a passing run of the constructor does. -/
structure Constructs (pool : Pool) (partitionCount : Nat) (image : Image) : Prop where
  accepted : image.metadata = pool.metadata
  recovers : (recover pool image).error = none
  partitions : partitionCount < pool.size

theorem constructs_of_passes (passes : (descriptorPool pool partitionCount image).error = none) :
    Constructs pool partitionCount image := by
  have accepted := accepted_of_passes passes
  rw [descriptorPool_of_accepted accepted] at passes
  have recovers := Program.error_first_of_andThen passes
  refine ⟨accepted, recovers, ?_⟩
  rw [Program.error_andThen recovers, rebuild_eq, Program.error_andThen (storeAll_error _ _)] at passes
  have checked := Program.test_of_check (Program.error_first_of_andThen passes)
  exact of_decide_eq_true checked

variable (constructs : Constructs pool partitionCount image)

include constructs

theorem descriptorPool_length : (descriptorPool pool partitionCount image).images.length =
    (recover pool image).images.length + 2 * (Field.all.length * pool.size) := by
  rw [descriptorPool_of_accepted constructs.accepted, Program.images_andThen constructs.recovers,
    List.length_append, (rebuild_passes constructs.partitions _).2.1]

/-- Where a stopped constructor is. -/
theorem descriptorPool_stopAfter (count : Nat) :
    (descriptorPool pool partitionCount).stopAfter count image =
      if count ≤ (recover pool image).images.length then (recover pool).stopAfter count image
      else if count - (recover pool image).images.length ≤ Field.all.length * pool.size then
        (storeAll pool .zero).stopAfter (count - (recover pool image).images.length)
          ((recover pool).final image)
      else (storeAll pool .initialized).stopAfter
        (count - (recover pool image).images.length - Field.all.length * pool.size)
        ((storeAll pool .zero).final ((recover pool).final image)) := by
  have same : (descriptorPool pool partitionCount).stopAfter count image =
      ((recover pool).andThen (rebuild pool partitionCount)).stopAfter count image := by
    unfold Program.stopAfter
    rw [descriptorPool_of_accepted constructs.accepted]
  rw [same, Program.stopAfter_andThen constructs.recovers, rebuild_eq,
    construct_eq constructs.partitions, Program.stopAfter_andThen (storeAll_error _ _),
    storeAll_length]

omit constructs in
/-- The statuses in the image of a construction that was stopped. -/
theorem stopped_construction_status {stores d : Nat} (inside : d < pool.size) :
    (((storeAll pool .initialized).stopAfter stores
      ((storeAll pool .zero).final ((recover pool).final image))).desc d).status =
      if Field.all.length * d < stores then .of .finished else .of .invalid := by
  rw [storeAll_status inside, storeAll_final, storeAll_status inside]
  have cleared : Field.all.length * d < Field.all.length * pool.size :=
    Nat.mul_lt_mul_of_pos_left inside (by decide)
  rw [if_pos cleared]
  rfl

theorem stopped_metadata {source : Descriptor} {stores : Nat} {start : Image}
    (same : start.metadata = image.metadata) :
    ((storeAll pool source).stopAfter stores start).metadata = pool.metadata := by
  rw [(storeAll_mem _ _ _).2, same, constructs.accepted]

/-- A construction that was stopped between the first and the last descriptor is taken for a
corrupted pool. -/
theorem descriptorPool_not_restarts {count : Nat}
    (first : Field.all.length ≤ (descriptorPool pool partitionCount image).images.length - count)
    (last : (descriptorPool pool partitionCount image).images.length - count <
      Field.all.length * pool.size) :
    ¬ Restarts (descriptorPool pool partitionCount) Image.mem count image := by
  rw [descriptorPool_length constructs] at first last
  rintro ⟨-, again, -, passes, -⟩
  rw [descriptorPool_stopAfter constructs, if_neg (by omega), if_neg (by omega)] at passes
  generalize stored : count - (recover pool image).images.length -
    Field.all.length * pool.size = stores at passes
  generalize halted : (storeAll pool .initialized).stopAfter stores
    ((storeAll pool .zero).final ((recover pool).final image)) = stopped at passes
  have inhabited : 0 < pool.size := Nat.lt_of_le_of_lt (Nat.zero_le _) constructs.partitions
  have status : ∀ d, d < pool.size → (stopped.desc d).status =
      if Field.all.length * d < stores then .of .finished else .of .invalid := by
    intro d inside
    rw [← halted]
    exact stopped_construction_status inside
  have values : stopped.ContractValues pool := by
    intro d inside used
    rw [status d inside] at used
    split at used
    · exact absurd used (by decide)
    · exact absurd used (by decide)
  have loop := (constructs_of_passes (Program.error_of_run passes).1).recovers
  have notNew : (stopped.desc 0).status ≠ .of .invalid := by
    rw [status 0 inhabited, if_pos (by omega)]
    decide
  have runsLoop : recover pool stopped = recoverLoop pool (List.range pool.size) stopped := by
    refine Program.branch_of_false ?_
    exact beq_eq_false_iff_ne.mpr notNew
  rw [runsLoop] at loop
  have valid := recoverLoop_valid values (fun d member => List.mem_range.mp member) notNew
    ⟨rfl, rfl⟩ loop (pool.size - 1) (List.mem_range.mpr (by omega))
  have reached : Field.all.length * pool.size =
      Field.all.length * (pool.size - 1) + Field.all.length := by
    rw [← Nat.mul_succ, Nat.succ_eq_add_one, Nat.sub_add_cancel inhabited]
  have some : 0 < Field.all.length := by decide
  rw [status (pool.size - 1) (by omega), if_neg (by omega)] at valid
  exact valid rfl

/-- At every other stop the second run passes and leaves the words of the undisturbed run. -/
theorem descriptorPool_restarts (values : image.ContractValues pool) {count : Nat}
    (safe : ¬ (Field.all.length ≤ (descriptorPool pool partitionCount image).images.length - count ∧
      (descriptorPool pool partitionCount image).images.length - count <
        Field.all.length * pool.size)) :
    Restarts (descriptorPool pool partitionCount) Image.mem count image := by
  rw [descriptorPool_length constructs] at safe
  have kept := recover_keeps values constructs.recovers
  have finalKept : image.SameDescriptors ((recover pool).final image) := by
    rcases (recover pool).stopAfter_mem (recover pool image).images.length image with nothing | stored
    · rw [← Program.stopAfter_of_length_le (Nat.le_refl _), nothing]
      exact ⟨rfl, rfl⟩
    · rw [← Program.stopAfter_of_length_le (Nat.le_refl _)]
      exact kept _ stored
  have inhabited : 0 < pool.size := Nat.lt_of_le_of_lt (Nat.zero_le _) constructs.partitions
  have accepted := checkMetadata_quiet constructs.accepted
  have quiet : ∀ {stopped : Image},
      (descriptorPool pool partitionCount).stopAfter count image = stopped →
      stopped.metadata = pool.metadata → Quiet (recover pool) stopped →
      stopped.mem = ((recover pool).final image).mem →
      Restarts (descriptorPool pool partitionCount) Image.mem count image := by
    intro stopped halted metadata nothing same
    refine .of_quiet accepted constructs.recovers ?_ halted (checkMetadata_quiet metadata) nothing same
    exact fun start => ⟨(rebuild_passes constructs.partitions start).1,
      (rebuild_passes constructs.partitions start).2.2⟩
  have stop := descriptorPool_stopAfter constructs count
  split at stop
  · rename_i early
    refine .of_stopped_recovery accepted constructs.recovers
      (rebuild_passes constructs.partitions _).1 (recover_resumes values) ?_ early
    intro other stored
    exact checkMetadata_quiet ((kept other stored).2.trans constructs.accepted)
  · split at stop
    · -- stopped while the descriptors are cleared
      refine quiet stop (stopped_metadata constructs finalKept.2) (recover_quiet_of_new ?_)
        (storeAll_mem _ _ _).1
      rw [storeAll_status inhabited, if_pos (by omega)]
      rfl
    · -- stopped when all descriptors are marked
      refine quiet stop ?_ (recover_quiet_of_finished ?_) ?_
      · refine stopped_metadata constructs ?_
        rw [storeAll_final, (storeAll_mem _ _ _).2]
        exact finalKept.2
      · intro d inside
        rw [stopped_construction_status inside, if_pos]
        have reached : Field.all.length * pool.size =
            Field.all.length * (pool.size - 1) + Field.all.length := by
          rw [← Nat.mul_succ, Nat.succ_eq_add_one, Nat.sub_add_cancel inhabited]
        have bound : Field.all.length * d ≤ Field.all.length * (pool.size - 1) :=
          Nat.mul_le_mul_left _ (by omega)
        omega
      · rw [(storeAll_mem _ _ _).1, storeAll_final, (storeAll_mem _ _ _).1]

end

/-- When a stopped constructor can be run again: if it was not stopped between the marks of the first and
of the last descriptor. -/
theorem descriptorPool_restarts_iff {partitionCount : Nat} {image : Image}
    (values : image.ContractValues pool)
    (passes : (descriptorPool pool partitionCount image).error = none) (count : Nat) :
    Restarts (descriptorPool pool partitionCount) Image.mem count image ↔
      ¬ (Field.all.length ≤ (descriptorPool pool partitionCount image).images.length - count ∧
        (descriptorPool pool partitionCount image).images.length - count <
          Field.all.length * pool.size) :=
  ⟨fun restarts stopped =>
      descriptorPool_not_restarts (constructs_of_passes passes) stopped.1 stopped.2 restarts,
    descriptorPool_restarts (constructs_of_passes passes) values⟩

/-- The memory of a pool after a crash: the operation of descriptor 0 on word 8 has succeeded, and its
pointer is still in the word. -/
def Image.inProgress : Image where
  metadata := Pool.small.metadata
  mem address := if address = 8 then Pool.small.mwCASPtr 0 false else .plain 1
  desc d :=
    if d = 0 then
      { status := .of .succeeded, count := 1, words := fun _ =>
        { address := 8, oldValue := .plain 1, newValue := .plain 2,
          ownDesc := Pool.small.descriptorAddress 0, recyclePolicy := .never } }
    else .initialized

/-- The constructor stopped when it has rolled the operation forward, and stopped when it has rebuilt
the first of the four descriptors. -/
theorem descriptorPool_restarts_iff_inProgress :
    Restarts (descriptorPool .small 2) Image.mem 1 Image.inProgress ∧
      ¬ Restarts (descriptorPool .small 2) Image.mem (1 + 5 * Field.all.length)
        Image.inProgress := by
  have values : Image.inProgress.ContractValues .small := by
    intro d _ used
    by_cases first : d = 0
    · subst first
      refine ⟨by decide, fun w _ => ?_⟩
      exact ⟨⟨rfl, (by decide : Pool.small.Foreign (.plain 1))⟩, rfl,
        (by decide : Pool.small.Foreign (.plain 2))⟩
    · simp only [Image.inProgress, if_neg first] at used
      exact absurd used (by decide)
  have passes : (descriptorPool .small 2 Image.inProgress).error = none := by decide +kernel
  have length : (descriptorPool .small 2 Image.inProgress).images.length =
      1 + 2 * (Field.all.length * 4) := by decide +kernel
  refine ⟨?_, ?_⟩
  · rw [descriptorPool_restarts_iff values passes, length]
    decide
  · rw [descriptorPool_restarts_iff values passes, length, not_not]
    decide

end Pmwcas
