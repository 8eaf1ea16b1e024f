/-
This file proves what the recovery loop does to a well-formed image. Every store of the loop keeps
the image well formed and its recovered words the same, so the loop can be stopped and run again
anywhere. An entry the loop is done with is resolved: its word is not dirty and does not point to
its descriptor, and no later store changes that. When all entries are resolved, the words are the
recovered ones.
-/

import Pmwcas.Recovery

namespace Pmwcas

open Stores

variable {pool : Pool}

namespace Image

/-! ### Recovered words -/

theorem Lists.listed {image : Image} {d i address : Nat} (lists : image.Lists pool d i address) :
    image.Listed pool address :=
  ⟨d, lists.inside, lists.unfinished, i, lists.entry, lists.address_eq⟩

theorem Listed.lists {image : Image} {address : Nat} (listed : image.Listed pool address) :
    ∃ d i, image.Lists pool d i address := by
  obtain ⟨d, inside, unfinished, i, entry, here⟩ := listed
  exact ⟨d, i, inside, unfinished, entry, here⟩

theorem recoveredWord_value {image : Image} {address : Nat} {word : Word} (plain : word.IsValue) :
    image.recoveredWord pool address word =
      if image.Listed pool address then word.clearDirty else word := by
  rw [recoveredWord, if_pos plain]

theorem recoveredWord_condCAS {image : Image} {d i : Nat} (address : Nat) {word : Word}
    (inside : i < kMaxCount) (flagged : ¬ word.IsValue) (points : word.rest = pool.wordAddress d i) :
    image.recoveredWord pool address word = ((image.desc d).words i).oldValue := by
  have different : pool.wordAddress d i ≠ pool.descriptorAddress d :=
    (pool.descriptorAddress_ne_wordAddress d d i inside).symm
  simp [recoveredWord, flagged, points, Pool.descriptorAt_wordAddress _ _ _ inside,
    Pool.wordAt_wordAddress _ _ _ inside, different]

namespace WellFormed

variable {image : Image} (ok : image.WellFormed pool)

include ok

theorem recoveredWord_mwCAS {d i address : Nat} {word : Word} (flagged : ¬ word.IsValue)
    (points : word.rest = pool.descriptorAddress d) (lists : image.Lists pool d i address) :
    image.recoveredWord pool address word =
      ((image.desc d).words i).finalValue ((image.desc d).status.code == .succeeded) := by
  have entry : (image.desc d).entryFor address = (image.desc d).words i := by
    refine Descriptor.entryFor_eq ?_ lists.entry lists.address_eq
    intro j inside here
    exact ok.distinct d j i address ⟨lists.inside, lists.unfinished, inside, here⟩ lists
  simp [recoveredWord, flagged, points, entry]

theorem entry_lt {d i address : Nat} (lists : image.Lists pool d i address) : i < kMaxCount :=
  Nat.lt_of_lt_of_le lists.entry (ok.count_le d lists.inside lists.unfinished)

/-- The final value of an entry is a value recovery leaves alone. -/
theorem finalValue {d i address : Nat} (lists : image.Lists pool d i address) (succeeded : Bool) :
    (((image.desc d).words i).finalValue succeeded).isCleanPtr = true ∧
      pool.Foreign (((image.desc d).words i).finalValue succeeded) := by
  have entry := ok.entries d i address lists
  cases succeeded with
  | true => exact entry.newValue
  | false => exact entry.oldValue

end WellFormed

/-! ### What every store keeps -/

/-- `image` is what recovery of `start` has made of it so far. -/
structure Recovering (pool : Pool) (start image : Image) : Prop where
  wellFormed : image.WellFormed pool
  desc : image.desc = start.desc
  metadata : image.metadata = start.metadata
  recovered : ∀ address, image.recovered pool address = start.recovered pool address

theorem Recovering.refl {start : Image} (ok : start.WellFormed pool) :
    Recovering pool start start :=
  ⟨ok, rfl, rfl, fun _ => rfl⟩

/-- A store of a word with the same recovered word. -/
theorem Recovering.storeWord {start image : Image} (holds : Recovering pool start image)
    {address : Nat} {word : Word} (form : image.WordForm pool address word)
    (same : image.recoveredWord pool address word = image.recovered pool address) :
    Recovering pool start (image.storeWord address word) := by
  have lists : ∀ {d i other}, (image.storeWord address word).Lists pool d i other →
      image.Lists pool d i other := fun there =>
    ⟨there.inside, there.unfinished, there.entry, there.address_eq⟩
  have forms : ∀ {other content}, image.WordForm pool other content →
      (image.storeWord address word).WordForm pool other content := by
    intro other content form
    cases form with
    | value plain foreign => exact .value plain foreign
    | condCAS flagged points there notSucceeded =>
      exact .condCAS flagged points
        ⟨there.inside, there.unfinished, there.entry, there.address_eq⟩ notSucceeded
    | mwCAS flagged points there =>
      exact .mwCAS flagged points ⟨there.inside, there.unfinished, there.entry, there.address_eq⟩
  refine ⟨⟨holds.wellFormed.valid, holds.wellFormed.count_le, ?_, ?_, ?_⟩, holds.desc,
    holds.metadata, ?_⟩
  · intro d i j other first second
    exact holds.wellFormed.distinct d i j other (lists first) (lists second)
  · intro d i other there
    exact holds.wellFormed.entries d i other (lists there)
  · intro other
    by_cases here : other = address
    · subst here
      simp only [Image.storeWord, Function.update_self]
      exact forms form
    · simp only [Image.storeWord, Function.update_of_ne here]
      exact forms (holds.wellFormed.words other)
  · intro other
    rw [← holds.recovered other]
    show image.recoveredWord pool other (Function.update image.mem address word other) = _
    by_cases here : other = address
    · subst here
      rw [Function.update_self]
      exact same
    · rw [Function.update_of_ne here]
      rfl

/-- Clearing the dirty bit of a word that is listed. -/
theorem Recovering.clearDirty {start image : Image} (holds : Recovering pool start image)
    {d i address : Nat} (lists : image.Lists pool d i address) :
    Recovering pool start (image.storeWord address (image.mem address).clearDirty) := by
  have form := holds.wellFormed.words address
  unfold Image.storeWord
  generalize found : image.mem address = word at form
  have recovered : image.recovered pool address = image.recoveredWord pool address word := by
    rw [← found]
    rfl
  cases form with
  | value plain foreign =>
    refine holds.storeWord (.value plain.clearDirty foreign) ?_
    rw [recovered, recoveredWord_value plain, recoveredWord_value plain.clearDirty,
      if_pos lists.listed, if_pos lists.listed, Word.clearDirty_clearDirty]
  | condCAS flagged points there notSucceeded =>
    have entry := holds.wellFormed.entry_lt there
    refine holds.storeWord (.condCAS flagged points there notSucceeded) ?_
    rw [recovered, recoveredWord_condCAS address entry flagged points]
    exact recoveredWord_condCAS address entry flagged points
  | mwCAS flagged points there =>
    refine holds.storeWord (.mwCAS flagged points there) ?_
    rw [recovered, holds.wellFormed.recoveredWord_mwCAS flagged points there]
    exact holds.wellFormed.recoveredWord_mwCAS flagged points there

/-- The recovered word in place of a pointer. -/
theorem Recovering.resolve {start image : Image} (holds : Recovering pool start image)
    {d i address : Nat} (lists : image.Lists pool d i address) (succeeded : Bool)
    (value : image.recovered pool address = ((image.desc d).words i).finalValue succeeded) :
    Recovering pool start
      (image.storeWord address (((image.desc d).words i).finalValue succeeded)) := by
  obtain ⟨clean, foreign⟩ := holds.wellFormed.finalValue lists succeeded
  have plain := Word.IsValue.of_isCleanPtr clean
  refine holds.storeWord (.value plain foreign) ?_
  rw [recoveredWord_value plain, if_pos lists.listed, value]
  exact Word.clearDirty_of_isCleanPtr clean

/-! ### Resolved entries -/

/-- The word of entry `i` of descriptor `d` is not dirty and does not point to the descriptor. -/
structure Resolved (pool : Pool) (image : Image) (d i : Nat) : Prop where
  clean : (image.target d i).dirty = false
  notDescriptor : (image.target d i).rest ≠ pool.descriptorAddress d
  notWord : (image.target d i).rest ≠ pool.wordAddress d i

/-- What a store of recovery writes: the same rest bits or a value, never a dirty bit. -/
theorem Resolved.storeWord {image : Image} {d i : Nat} (inside : d < pool.size)
    (entry : i < kMaxCount) (resolved : image.Resolved pool d i) {address : Nat} {word : Word}
    (clean : word.dirty = false)
    (rest : word.rest = (image.mem address).rest ∨ pool.Foreign word) :
    (image.storeWord address word).Resolved pool d i := by
  have target : (image.storeWord address word).target d i =
      if ((image.desc d).words i).address = address then word else image.target d i := by
    simp only [Image.target, Image.storeWord, Function.update_apply]
  by_cases here : ((image.desc d).words i).address = address
  · rw [if_pos here] at target
    refine ⟨by rw [target]; exact clean, ?_, ?_⟩ <;> rw [target]
    · rcases rest with same | foreign
      · rw [same, ← here]
        exact resolved.notDescriptor
      · exact (foreign d inside).1
    · rcases rest with same | foreign
      · rw [same, ← here]
        exact resolved.notWord
      · exact (foreign d inside).2 i entry
  · rw [if_neg here] at target
    refine ⟨?_, ?_, ?_⟩ <;> rw [target]
    · exact resolved.clean
    · exact resolved.notDescriptor
    · exact resolved.notWord

/-- Recovery of `start` has got so far that the entries in `done` are resolved. -/
structure Progress (pool : Pool) (start : Image) (done : Nat → Nat → Prop) (image : Image) :
    Prop where
  recovering : Recovering pool start image
  resolved : ∀ d i, done d i → d < pool.size ∧ i < kMaxCount ∧ image.Resolved pool d i

theorem Progress.storeWord {start image : Image} {done : Nat → Nat → Prop}
    (progress : Progress pool start done image) {address : Nat} {word : Word}
    (clean : word.dirty = false)
    (rest : word.rest = (image.mem address).rest ∨ pool.Foreign word)
    (holds : Recovering pool start (image.storeWord address word)) :
    Progress pool start done (image.storeWord address word) := by
  refine ⟨holds, ?_⟩
  intro d i member
  obtain ⟨inside, entry, resolved⟩ := progress.resolved d i member
  exact ⟨inside, entry, resolved.storeWord inside entry clean rest⟩

end Image

/-! ### One entry -/

namespace Image.WellFormed

variable {image : Image} (ok : image.WellFormed pool) {d address : Nat} (inside : d < pool.size)

include ok inside

/-- A word with the rest bits of a descriptor's address is a pointer. -/
theorem flagged_of_descriptor (same : (image.mem address).rest = pool.descriptorAddress d) :
    ¬ (image.mem address).IsValue := by
  cases ok.words address with
  | value plain foreign => exact absurd same (foreign d inside).1
  | condCAS flagged points lists notSucceeded => exact flagged
  | mwCAS flagged points lists => exact flagged

/-- A word with the rest bits of a word descriptor's address is a pointer of a descriptor that has
not succeeded. -/
theorem flagged_of_word {w : Nat} (entry : w < kMaxCount)
    (same : (image.mem address).rest = pool.wordAddress d w) :
    ¬ (image.mem address).IsValue ∧ (image.desc d).status.code ≠ .succeeded := by
  cases ok.words address with
  | value plain foreign => exact absurd same ((foreign d inside).2 w entry)
  | @condCAS e j flagged points lists notSucceeded =>
    have pointers : pool.condCASPtr e j = pool.condCASPtr d w :=
      Word.ext rfl rfl rfl (points.symm.trans same)
    obtain ⟨rfl, rfl⟩ := pool.condCASPtr_inj (ok.entry_lt lists) entry pointers
    exact ⟨flagged, notSucceeded⟩
  | mwCAS flagged points lists =>
    exact absurd (points.symm.trans same) (pool.descriptorAddress_ne_wordAddress _ _ _ entry)

end Image.WellFormed

theorem Word.cleanPtr_beq (word : Word) (value : Nat) :
    (word.cleanPtr == .plain value) = decide (word.rest = value) := by
  by_cases same : word.rest = value
  · simp [Word.cleanPtr, same]
  · have different : Word.plain word.rest ≠ .plain value :=
      fun equal => same (congrArg Word.rest equal)
    simp [Word.cleanPtr, same, different]

/-- The entries done, and entry `w` of descriptor `d`. -/
def andAlso (done : Nat → Nat → Prop) (d w : Nat) : Nat → Nat → Prop :=
  fun e j => done e j ∨ (e = d ∧ j = w)

section

variable {start : Image} {done : Nat → Nat → Prop} {d w : Nat}

theorem Image.Recovering.lists {image : Image} (holds : Recovering pool start image)
    {address : Nat} (listed : start.Lists pool d w address) : image.Lists pool d w address := by
  refine ⟨listed.inside, ?_, ?_, ?_⟩ <;> rw [holds.desc]
  · exact listed.unfinished
  · exact listed.entry
  · exact listed.address_eq

theorem Image.Progress.resolve {image : Image} (progress : Progress pool start done image)
    (inside : d < pool.size) (entry : w < kMaxCount) (resolved : image.Resolved pool d w) :
    Progress pool start (andAlso done d w) image := by
  refine ⟨progress.recovering, ?_⟩
  intro e j member
  rcases member with earlier | ⟨rfl, rfl⟩
  · exact progress.resolved e j earlier
  · exact ⟨inside, entry, resolved⟩

variable (listed : start.Lists pool d w ((start.desc d).words w).address)

include listed

theorem accessTarget_triple {crash : Image → Prop} :
    Triple (Image.Progress pool start done) (accessTarget d w) (Image.Progress pool start done)
      crash := by
  refine .check ?_
  intro image progress
  have lists := progress.recovering.lists listed
  exact bne_iff_ne.mpr (progress.recovering.wellFormed.entries d w _ lists).address_ne

theorem clearTargetDirty_triple :
    Triple (Image.Progress pool start done) (clearTargetDirty d w)
      (fun image => Image.Progress pool start done image ∧ (image.target d w).dirty = false)
      (Image.Recovering pool start) := by
  refine .branch (.store ?_) (.pass ?_)
  · rintro image ⟨progress, -⟩
    have lists := progress.recovering.lists listed
    have here : ((image.desc d).words w).address = ((start.desc d).words w).address :=
      lists.address_eq
    have holds := progress.recovering.clearDirty lists
    have after : Image.Progress pool start done (image.storeWord ((image.desc d).words w).address
        (image.target d w).clearDirty) := by
      rw [Image.target, here]
      exact progress.storeWord rfl (Or.inl rfl) holds
    refine ⟨⟨after, ?_⟩, after.recovering⟩
    simp [Image.target, Image.storeWord]
  · rintro image ⟨progress, clean⟩
    exact ⟨progress, clean⟩

/-- The recovered value in place of a pointer to the descriptor. -/
theorem storeFinal_triple (succeeded : Bool) :
    Triple (fun image => Image.Progress pool start done image ∧
        image.recovered pool ((start.desc d).words w).address =
          ((image.desc d).words w).finalValue succeeded)
      (.store fun image => image.storeWord ((image.desc d).words w).address
        (((image.desc d).words w).finalValue succeeded) : Program Image Abort)
      (Image.Progress pool start (andAlso done d w)) (Image.Recovering pool start) := by
  refine .store ?_
  rintro image ⟨progress, value⟩
  have lists := progress.recovering.lists listed
  have here : ((image.desc d).words w).address = ((start.desc d).words w).address :=
    lists.address_eq
  obtain ⟨clean, foreign⟩ := progress.recovering.wellFormed.finalValue lists succeeded
  have notDirty := ((Word.isCleanPtr_iff _).mp clean).2.2
  have entry := progress.recovering.wellFormed.entry_lt lists
  rw [here]
  have holds := progress.recovering.resolve lists succeeded value
  have after := progress.storeWord notDirty (Or.inr foreign) holds
  have target : (image.storeWord ((start.desc d).words w).address
      (((image.desc d).words w).finalValue succeeded)).target d w =
      ((image.desc d).words w).finalValue succeeded := by
    simp [Image.target, Image.storeWord, here]
  refine ⟨after.resolve lists.inside entry ⟨?_, ?_, ?_⟩, after.recovering⟩ <;> rw [target]
  · exact notDirty
  · exact (foreign d lists.inside).1
  · exact (foreign d lists.inside).2 w entry

theorem rollBackWord_triple (notSucceeded : (start.desc d).status.code ≠ .succeeded) :
    Triple (Image.Progress pool start done) (rollBackWord pool d w)
      (Image.Progress pool start (andAlso done d w)) (Image.Recovering pool start) := by
  refine .andThen (accessTarget_triple listed) (.andThen (clearTargetDirty_triple listed)
    (.branch ?_ (.pass ?_)))
  · refine (storeFinal_triple listed false).weaken ?_ (fun _ holds => holds) fun _ holds => holds
    rintro image ⟨⟨progress, clean⟩, points⟩
    refine ⟨progress, ?_⟩
    have lists := progress.recovering.lists listed
    have ok := progress.recovering.wellFormed
    have entry := ok.entry_lt lists
    simp only [Word.cleanPtr_beq, Bool.or_eq_true, decide_eq_true_eq, Image.target,
      lists.address_eq] at points
    have code : ((image.desc d).status.code == .succeeded) = false := by
      rw [progress.recovering.desc]
      exact beq_eq_false_iff_ne.mpr notSucceeded
    rcases points with descriptor | word
    · have flagged := ok.flagged_of_descriptor lists.inside descriptor
      rw [Image.recovered, ok.recoveredWord_mwCAS flagged descriptor lists, code]
    · obtain ⟨flagged, -⟩ := ok.flagged_of_word lists.inside entry word
      rw [Image.recovered, Image.recoveredWord_condCAS _ entry flagged word]
      rfl
  · rintro image ⟨⟨progress, clean⟩, points⟩
    have lists := progress.recovering.lists listed
    simp only [Word.cleanPtr_beq, Bool.or_eq_false_iff, decide_eq_false_iff_not] at points
    exact progress.resolve lists.inside (progress.recovering.wellFormed.entry_lt lists)
      ⟨clean, points.1, points.2⟩

theorem rollForwardWord_triple (succeeded : (start.desc d).status.code = .succeeded) :
    Triple (Image.Progress pool start done) (rollForwardWord pool d w)
      (Image.Progress pool start (andAlso done d w)) (Image.Recovering pool start) := by
  have notWord : ∀ {image : Image}, Image.Progress pool start done image →
      (image.target d w).rest ≠ pool.wordAddress d w := by
    intro image progress same
    have lists := progress.recovering.lists listed
    have ok := progress.recovering.wellFormed
    refine (ok.flagged_of_word lists.inside (ok.entry_lt lists) same).2 ?_
    rw [progress.recovering.desc]
    exact succeeded
  refine .andThen (accessTarget_triple listed) (.andThen (clearTargetDirty_triple listed)
    (.andThen (.check ?_) (.branch ?_ (.pass ?_))))
  · rintro image ⟨progress, -⟩
    simp [bne, Word.cleanPtr_beq, notWord progress]
  · refine (storeFinal_triple listed true).weaken ?_ (fun _ holds => holds) fun _ holds => holds
    rintro image ⟨⟨progress, clean⟩, points⟩
    refine ⟨progress, ?_⟩
    have lists := progress.recovering.lists listed
    have ok := progress.recovering.wellFormed
    simp only [Word.cleanPtr_beq, decide_eq_true_eq, Image.target, lists.address_eq] at points
    have flagged := ok.flagged_of_descriptor lists.inside points
    have code : ((image.desc d).status.code == .succeeded) = true := by
      rw [progress.recovering.desc]
      exact beq_iff_eq.mpr succeeded
    rw [Image.recovered, ok.recoveredWord_mwCAS flagged points lists, code]
  · rintro image ⟨⟨progress, clean⟩, points⟩
    have lists := progress.recovering.lists listed
    simp only [Word.cleanPtr_beq, decide_eq_false_iff_not] at points
    exact progress.resolve lists.inside (progress.recovering.wellFormed.entry_lt lists)
      ⟨clean, points, notWord progress⟩

theorem checkWord_triple (isDone : done d w) {crash : Image → Prop} :
    Triple (Image.Progress pool start done) (checkWord pool d w)
      (Image.Progress pool start done) crash := by
  refine .andThen (accessTarget_triple listed) (.andThen (.check ?_) (.check ?_))
  · intro image progress
    obtain ⟨-, -, resolved⟩ := progress.resolved d w isDone
    refine bne_iff_ne.mpr fun same => resolved.notDescriptor ?_
    exact congrArg Word.rest same
  · intro image progress
    obtain ⟨-, -, resolved⟩ := progress.resolved d w isDone
    refine bne_iff_ne.mpr fun same => resolved.notDescriptor ?_
    exact congrArg Word.rest same

end

/-! ### The loop -/

section

variable {start : Image}

/-- The entries of the listed descriptors. -/
def entriesOf (pool : Pool) (start : Image) (descriptors : List Nat) : Nat → Nat → Prop :=
  fun d i => d ∈ descriptors ∧ start.Lists pool d i ((start.desc d).words i).address

theorem Image.Progress.weaken {done less : Nat → Nat → Prop} {image : Image}
    (progress : Progress pool start done image) (fewer : ∀ d i, less d i → done d i) :
    Progress pool start less image :=
  ⟨progress.recovering, fun d i member => progress.resolved d i (fewer d i member)⟩

/-- The entries done, and the listed ones of descriptor `d`. -/
def andThese (done : Nat → Nat → Prop) (d : Nat) (entries : List Nat) : Nat → Nat → Prop :=
  fun e j => done e j ∨ (e = d ∧ j ∈ entries)

/-- A loop over the entries of a descriptor, with what the entries visited are done for. -/
theorem forEntries_triple {d : Nat} (done : List Nat → Nat → Nat → Prop)
    {body : Nat → Program Image Abort}
    (step : ∀ visited w, w < (start.desc d).count →
      Triple (Image.Progress pool start (done visited)) (body w)
        (Image.Progress pool start (done (visited ++ [w]))) (Image.Recovering pool start)) :
    Triple (Image.Progress pool start (done [])) (forEntries d body)
      (Image.Progress pool start (done (List.range (start.desc d).count)))
      (Image.Recovering pool start) := by
  refine .read ?_
  rintro count image ⟨progress, counted⟩
  rw [progress.recovering.desc] at counted
  subst counted
  refine Triple.forEach (fun visited => Image.Progress pool start (done visited)) _ ?_ image progress
  intro visited w rest split
  refine step visited w (List.mem_range.mp ?_)
  rw [split]
  exact List.mem_append_right _ List.mem_cons_self

section

variable {done : Nat → Nat → Prop} {d : Nat} (inside : d < pool.size)
  (unfinished : (start.desc d).status.code.InUse)

include inside unfinished

/-- Rolling an unfinished descriptor back or forward resolves its entries. -/
theorem rollEntries_triple :
    Triple (Image.Progress pool start done)
      (forEntries d (if (start.desc d).status.code = .succeeded then rollForwardWord pool d
        else rollBackWord pool d))
      (Image.Progress pool start (andThese done d (List.range (start.desc d).count)))
      (Image.Recovering pool start) := by
  refine (forEntries_triple (andThese done d) ?_).weaken ?_ (fun _ holds => holds)
    fun _ holds => holds
  · intro visited w entry
    have listed : start.Lists pool d w ((start.desc d).words w).address :=
      ⟨inside, unfinished, entry, rfl⟩
    have next : ∀ image, Image.Progress pool start (andAlso (andThese done d visited) d w) image →
        Image.Progress pool start (andThese done d (visited ++ [w])) image := by
      intro image progress
      refine progress.weaken ?_
      rintro e j (old | ⟨rfl, member⟩)
      · exact Or.inl (Or.inl old)
      · rcases List.mem_append.mp member with old | new
        · exact Or.inl (Or.inr ⟨rfl, old⟩)
        · exact Or.inr ⟨rfl, List.mem_singleton.mp new⟩
    by_cases succeeded : (start.desc d).status.code = .succeeded
    · rw [if_pos succeeded]
      exact (rollForwardWord_triple listed succeeded).weaken (fun _ holds => holds) next
        fun _ holds => holds
    · rw [if_neg succeeded]
      exact (rollBackWord_triple listed succeeded).weaken (fun _ holds => holds) next
        fun _ holds => holds
  · intro image progress
    refine progress.weaken ?_
    rintro e j (old | ⟨-, impossible⟩)
    · exact old
    · cases impossible

theorem checkEntries_triple :
    Triple (Image.Progress pool start (andThese done d (List.range (start.desc d).count)))
      (forEntries d (checkWord pool d))
      (Image.Progress pool start (andThese done d (List.range (start.desc d).count)))
      (Image.Recovering pool start) :=
  forEntries_triple (fun _ => andThese done d (List.range (start.desc d).count))
    fun _ _ entry => checkWord_triple ⟨inside, unfinished, entry, rfl⟩
      (Or.inr ⟨rfl, List.mem_range.mpr entry⟩)

end

/-- The recovery of one descriptor resolves its entries. -/
theorem recoverDescriptor_triple {d : Nat} (earlier : List Nat) (inside : d < pool.size) :
    Triple (Image.Progress pool start (entriesOf pool start earlier)) (recoverDescriptor pool d)
      (Image.Progress pool start (entriesOf pool start (earlier ++ [d])))
      (Image.Recovering pool start) := by
  refine .andThen (.check ?_) (.read ?_)
  · intro image progress
    exact bne_iff_ne.mpr (progress.recovering.wellFormed.valid d inside)
  rintro code image ⟨progress, found⟩
  have valid : (start.desc d).status.code ≠ .invalid := by
    rw [← progress.recovering.desc]
    exact progress.recovering.wellFormed.valid d inside
  rw [progress.recovering.desc] at found
  subst found
  by_cases finished : (start.desc d).status.code = .finished
  · rw [if_pos finished]
    refine Triple.pass (fun _ holds => holds) image (progress.weaken ?_)
    rintro e i ⟨member, lists⟩
    rcases List.mem_append.mp member with old | new
    · exact ⟨old, lists⟩
    · cases List.mem_singleton.mp new
      have unfinished := lists.unfinished
      rw [finished] at unfinished
      exact absurd unfinished StatusCode.not_inUse_finished
  · rw [if_neg finished]
    have unfinished : (start.desc d).status.code.InUse := by
      cases code : (start.desc d).status.code with
      | invalid => exact absurd code valid
      | finished => exact absurd code finished
      | succeeded | failed | undecided => decide
    refine Triple.weaken (.andThen (rollEntries_triple inside unfinished)
      (checkEntries_triple inside unfinished)) (fun _ holds => holds) ?_ (fun _ holds => holds)
      image progress
    intro after reached
    refine reached.weaken ?_
    rintro e i ⟨member, lists⟩
    rcases List.mem_append.mp member with old | new
    · exact Or.inl ⟨old, lists⟩
    · cases List.mem_singleton.mp new
      exact Or.inr ⟨rfl, List.mem_range.mpr lists.entry⟩

/-- The loop over any list of descriptors resolves their entries. -/
theorem recoverLoop_triple (descriptors earlier : List Nat)
    (inside : ∀ d ∈ descriptors, d < pool.size) :
    Triple (Image.Progress pool start (entriesOf pool start earlier)) (recoverLoop pool descriptors)
      (Image.Progress pool start (entriesOf pool start (earlier ++ descriptors)))
      (Image.Recovering pool start) := by
  induction descriptors generalizing earlier with
  | nil =>
    rw [List.append_nil]
    exact .pass fun _ holds => holds
  | cons d rest inductionHypothesis =>
    have here := inside d List.mem_cons_self
    refine .branch ?_ ?_
    · rintro image ⟨progress, invalid⟩
      have code := congrArg Status.code (eq_of_beq invalid)
      exact absurd code (progress.recovering.wellFormed.valid d here)
    · have later := inductionHypothesis (earlier ++ [d])
        fun e member => inside e (List.mem_cons_of_mem _ member)
      rw [List.append_assoc] at later
      exact Triple.weaken (.andThen (recoverDescriptor_triple earlier here) later)
        (fun _ holds => holds.1) (fun _ holds => holds) fun _ holds => holds

end

/-- When the entries of all descriptors are resolved the words are the recovered ones. -/
theorem Image.Progress.mem_eq {start image : Image} {order : List Nat}
    (all : ∀ d, d < pool.size → d ∈ order)
    (progress : Progress pool start (entriesOf pool start order) image) :
    image.mem = start.recovered pool := by
  funext address
  rw [← progress.recovering.recovered address]
  have ok := progress.recovering.wellFormed
  have resolved : ∀ {d i}, image.Lists pool d i address → (image.mem address).dirty = false ∧
      (image.mem address).rest ≠ pool.descriptorAddress d ∧
      (image.mem address).rest ≠ pool.wordAddress d i := by
    intro d i lists
    have listed : start.Lists pool d i ((start.desc d).words i).address := by
      refine ⟨lists.inside, ?_, ?_, rfl⟩ <;> rw [← progress.recovering.desc]
      · exact lists.unfinished
      · exact lists.entry
    obtain ⟨-, -, done⟩ := progress.resolved d i ⟨all d lists.inside, listed⟩
    have target : image.target d i = image.mem address := by
      rw [Image.target, lists.address_eq]
    rw [← target]
    exact ⟨done.clean, done.notDescriptor, done.notWord⟩
  have form := ok.words address
  unfold Image.recovered
  generalize image.mem address = word at resolved form
  cases form with
  | value plain foreign =>
    rw [recoveredWord_value plain]
    split
    · rename_i listed
      obtain ⟨d, i, lists⟩ := listed.lists
      exact Word.ext rfl rfl (resolved lists).1 rfl
    · rfl
  | condCAS flagged points lists notSucceeded => exact absurd points (resolved lists).2.2
  | mwCAS flagged points lists => exact absurd points (resolved lists).2.1

/-- The loop over all descriptors in any order ends with the recovered words. -/
theorem recoverLoop_recovers (start : Image) {order : List Nat}
    (visits : ∀ d, d ∈ order ↔ d < pool.size) :
    Triple (Image.Recovering pool start) (recoverLoop pool order)
      (fun image => image.mem = start.recovered pool ∧ image.desc = start.desc ∧
        image.metadata = start.metadata)
      (Image.Recovering pool start) := by
  refine (recoverLoop_triple order [] fun d member => (visits d).1 member).weaken ?_ ?_
    fun _ holds => holds
  · intro image holds
    refine ⟨holds, ?_⟩
    rintro d i ⟨impossible, -⟩
    cases impossible
  · intro image progress
    exact ⟨progress.mem_eq fun d inside => (visits d).2 inside, progress.recovering.desc,
      progress.recovering.metadata⟩

/-- Recovery of a well-formed image ends with the recovered words, and can be stopped anywhere. -/
theorem recover_triple (start : Image) (inhabited : 0 < pool.size) :
    Triple (Image.Recovering pool start) (recover pool)
      (fun image => image.mem = start.recovered pool ∧ image.desc = start.desc ∧
        image.metadata = start.metadata)
      (Image.Recovering pool start) := by
  refine .branch ?_ ?_
  · rintro image ⟨holds, invalid⟩
    have code := congrArg Status.code (eq_of_beq invalid)
    exact absurd code (holds.wellFormed.valid 0 inhabited)
  · exact (recoverLoop_recovers start fun d => List.mem_range).weaken (fun _ holds => holds.1)
      (fun _ holds => holds) fun _ holds => holds

/-! ### The constructor -/

/-- Stores to fields of one descriptor: a stopped sequence has written the first of them. -/
theorem storeFields_triple (d : Nat) (source : Descriptor) (fields : List Field) (start : Image) :
    Triple (fun image => image = start) (storeFields d source fields)
      (fun image => image = start.setDesc d (source.copyFields fields (start.desc d)))
      (fun image => ∃ written, written <+: fields ∧ written ≠ [] ∧
        image = start.setDesc d (source.copyFields written (start.desc d))) := by
  refine (Triple.forEach
    (fun written image => image = start.setDesc d (source.copyFields written (start.desc d)))
    fields ?_).weaken ?_ (fun _ holds => holds) fun _ holds => holds
  · intro written field rest split
    refine .store ?_
    rintro image rfl
    have next : Image.storeField (start.setDesc d (source.copyFields written (start.desc d))) d
        source field = start.setDesc d (source.copyFields (written ++ [field]) (start.desc d)) := by
      simp [Image.storeField, Image.setDesc, Descriptor.copyFields]
    refine ⟨next, written ++ [field], ⟨rest, ?_⟩, by simp, next⟩
    rw [split, List.append_assoc]
    rfl
  · rintro image rfl
    simp [Descriptor.copyFields, Image.setDesc]

section

variable {words : Nat → Word} {metadata : Metadata}

/-- The target words and the metadata are these, and the descriptors below a boundary have one
status and the others another. -/
structure Image.Boundary (pool : Pool) (words : Nat → Word) (metadata : Metadata)
    (below above : Status → Prop) (boundary : Nat) (image : Image) : Prop where
  mem : image.mem = words
  metadata : image.metadata = metadata
  below : ∀ d, d < boundary → d < pool.size → below (image.desc d).status
  above : ∀ d, boundary ≤ d → d < pool.size → above (image.desc d).status

theorem Image.Boundary.setDesc {below above : Status → Prop} {d : Nat} {image : Image}
    (holds : image.Boundary pool words metadata below above d) {descriptor : Descriptor}
    (status : below descriptor.status) :
    (image.setDesc d descriptor).Boundary pool words metadata below above (d + 1) where
  mem := holds.mem
  metadata := holds.metadata
  below e before inside := by
    by_cases same : e = d
    · subst same
      rw [Image.setDesc_desc_self]
      exact status
    · rw [Image.setDesc_desc_of_ne _ _ same]
      exact holds.below e (by omega) inside
  above e after inside := by
    rw [Image.setDesc_desc_of_ne _ _ (by omega)]
    exact holds.above e (by omega) inside

theorem eq_length_of_range {size d : Nat} {visited rest : List Nat}
    (split : List.range size = visited ++ d :: rest) : d = visited.length ∧ d < size := by
  have member : d ∈ List.range size := by
    rw [split]
    exact List.mem_append_right _ List.mem_cons_self
  have found : (List.range size)[visited.length]? = some d := by
    rw [split]
    simp
  have inside := List.mem_range.mp member
  rw [List.getElem?_eq_some_iff] at found
  obtain ⟨_, here⟩ := found
  rw [List.getElem_range] at here
  exact ⟨here.symm, inside⟩

/-- A loop that writes all fields of one descriptor after the other moves the boundary up. -/
theorem storeAll_triple (pool : Pool) (words : Nat → Word) (metadata : Metadata)
    (source : Descriptor) (above : Status → Prop) :
    Triple (Image.Boundary pool words metadata (· = source.status) above 0)
      (.forEach (fun d => storeFields d source Field.all) (List.range pool.size))
      (fun image => image.Boundary pool words metadata (· = source.status) above pool.size ∧
        ∀ d, d < pool.size → ∃ target, image.desc d = source.copyFields Field.all target)
      (fun image => ∃ boundary, 0 < boundary ∧ boundary ≤ pool.size ∧
        image.Boundary pool words metadata (· = source.status) above boundary) := by
  refine (Triple.forEach (fun visited image =>
      image.Boundary pool words metadata (· = source.status) above visited.length ∧
      ∀ d, d < visited.length → ∃ target, image.desc d = source.copyFields Field.all target)
    (List.range pool.size) ?_).weaken ?_ ?_ fun _ holds => holds
  · intro visited d rest split
    obtain ⟨rfl, inside⟩ := eq_length_of_range split
    rintro image ⟨holds, written⟩
    obtain ⟨images, ends, reached⟩ :=
      storeFields_triple visited.length source Field.all image image rfl
    refine ⟨?_, ends, ?_⟩
    · intro after member
      obtain ⟨part, first, some, rfl⟩ := images after member
      exact ⟨visited.length + 1, Nat.succ_pos _, inside,
        holds.setDesc (Descriptor.copyFields_prefix_status _ _ first some)⟩
    · rw [reached]
      rw [List.length_append, List.length_singleton]
      refine ⟨holds.setDesc (Descriptor.copyFields_prefix_status _ _ (List.prefix_refl _)
        (by simp [Field.all])), ?_⟩
      intro e before
      by_cases same : e = visited.length
      · subst same
        exact ⟨_, Image.setDesc_desc_self _ _ _⟩
      · rw [Image.setDesc_desc_of_ne _ _ same]
        exact written e (by omega)
  · intro image holds
    exact ⟨holds, fun d impossible => absurd impossible (Nat.not_lt_zero d)⟩
  · intro image holds
    rw [List.length_range] at holds
    exact holds

end

/-- The metadata the constructor accepts. -/
theorem checkMetadata_triple {crash : Image → Prop} {start : Image}
    (accepted : start.metadata = pool.metadata) :
    Triple (Image.Recovering pool start) (checkMetadata pool) (Image.Recovering pool start)
      crash := by
  refine .andThen (.check ?_) (.check ?_) <;>
  · intro image holds
    rw [holds.metadata, accepted]
    exact beq_self_eq_true _

/-- The words are recovered and the descriptors up to a boundary are cleared. -/
def Image.Clearing (pool : Pool) (words : Nat → Word) (image : Image) : Prop :=
  ∃ boundary, 0 < boundary ∧ boundary ≤ pool.size ∧
    image.Boundary pool words pool.metadata (· = .of .invalid) (fun _ => True) boundary

/-- The words are recovered, the descriptors are cleared, and those up to a boundary are
constructed. -/
def Image.Constructing (pool : Pool) (words : Nat → Word) (image : Image) : Prop :=
  ∃ boundary, 0 < boundary ∧ boundary ≤ pool.size ∧
    image.Boundary pool words pool.metadata (· = .of .finished) (· = .of .invalid) boundary

/-- The constructor on a well-formed image: the words and the descriptors it leaves, and where it
may be stopped. -/
theorem descriptorPool_triple {partitionCount : Nat} {start : Image}
    (accepted : start.metadata = pool.metadata) (partitions : partitionCount < pool.size) :
    Triple (Image.Recovering pool start) (descriptorPool pool partitionCount)
      (fun image => image.mem = start.recovered pool ∧ image.metadata = pool.metadata ∧
        ∀ d, d < pool.size → (image.desc d).Fresh)
      (fun image => Image.Recovering pool start image ∨
        image.Clearing pool (start.recovered pool) ∨
        image.Constructing pool (start.recovered pool)) := by
  have inhabited : 0 < pool.size := Nat.lt_of_le_of_lt (Nat.zero_le _) partitions
  have clears := storeAll_triple pool (start.recovered pool) pool.metadata .zero fun _ => True
  have constructs := storeAll_triple pool (start.recovered pool) pool.metadata .initialized
    (· = .of .invalid)
  refine .andThen (checkMetadata_triple accepted) (.andThen
    ((recover_triple start inhabited).weaken (fun _ holds => holds) ?_ fun _ holds => Or.inl holds)
    (.andThen (clears.weaken (fun _ holds => holds) (fun _ holds => holds)
      fun _ holds => Or.inr (Or.inl holds)) (.andThen (.check ?_)
      (constructs.weaken ?_ ?_ fun _ holds => Or.inr (Or.inr holds)))))
  · rintro image ⟨mem, -, metadata⟩
    exact ⟨mem, metadata.trans accepted, fun _ impossible => absurd impossible (Nat.not_lt_zero _),
      fun _ _ _ => trivial⟩
  · intro image _
    exact decide_eq_true partitions
  · rintro image ⟨holds, -⟩
    exact ⟨holds.mem, holds.metadata, fun _ impossible => absurd impossible (Nat.not_lt_zero _),
      fun d _ inside => holds.below d inside inside⟩
  · rintro image ⟨holds, written⟩
    refine ⟨holds.mem, holds.metadata, ?_⟩
    intro d inside
    obtain ⟨target, here⟩ := written d inside
    rw [here]
    exact Descriptor.copyFields_all_fresh target

/-- The constructor opens every well-formed pool and leaves the recovered words. -/
theorem descriptorPool_ok {partitionCount : Nat} {image : Image} (ok : image.WellFormed pool)
    (accepted : image.metadata = pool.metadata) (partitions : partitionCount < pool.size) :
    ∃ final, (descriptorPool pool partitionCount).run image = .ok final ∧
      final.mem = image.recovered pool ∧ ∀ d, d < pool.size → (final.desc d).Fresh := by
  obtain ⟨final, ends, mem, -, fresh⟩ :=
    (descriptorPool_triple accepted partitions).run_eq (.refl ok)
  exact ⟨final, ends, mem, fresh⟩

end Pmwcas
