/-
This file models `OptmizedFASASDescriptorPool::recoverDescriptor` as a program of stores: the loop
over the descriptors, `recoverOneDescriptor` and `doRecoverPrivateAddrSucc`, with their checks.
-/

import Pmwcas.Library.Restart
import Pmwcas.OptmizedFasas
import Pmwcas.Recovery

namespace Pmwcas

open Stores

/-- What is found in memory when a pool of optimized FASAS descriptors is opened. -/
structure OptmizedImage where
  metadata : Metadata
  mem : Nat → Nat
  desc : Nat → OptmizedFASASDescriptor

namespace OptmizedImage

/-- A store to a user word. -/
def storeWord (image : OptmizedImage) (address value : Nat) : OptmizedImage :=
  { image with mem := Function.update image.mem address value }

/-- The image with another content of descriptor `d`. -/
def setDesc (image : OptmizedImage) (d : Nat) (descriptor : OptmizedFASASDescriptor) :
    OptmizedImage :=
  { image with desc := Function.update image.desc d descriptor }

/-- The shared word of descriptor `d`. -/
def target (image : OptmizedImage) (d : Nat) : Nat := image.mem (image.desc d).sharedAddress

/-- The word has the tag of the last attempt of descriptor `d`. -/
def tagged (image : OptmizedImage) (d val : Nat) : Bool :=
  processIdOf val == (image.desc d).processId && seqIdOf val == (image.desc d).statusInfo.seqId

@[simp] theorem setDesc_desc_self (image : OptmizedImage) (d : Nat)
    (descriptor : OptmizedFASASDescriptor) : (image.setDesc d descriptor).desc d = descriptor :=
  Function.update_self ..

theorem setDesc_desc_of_ne (image : OptmizedImage) {d e : Nat} (different : e ≠ d)
    (descriptor : OptmizedFASASDescriptor) :
    (image.setDesc d descriptor).desc e = image.desc e :=
  Function.update_of_ne different ..

@[simp] theorem setDesc_mem (image : OptmizedImage) (d : Nat)
    (descriptor : OptmizedFASASDescriptor) : (image.setDesc d descriptor).mem = image.mem := rfl

@[simp] theorem storeWord_desc (image : OptmizedImage) (address value : Nat) :
    (image.storeWord address value).desc = image.desc := rfl

@[simp] theorem storeWord_mem_self (image : OptmizedImage) (address value : Nat) :
    (image.storeWord address value).mem address = value := Function.update_self ..

theorem storeWord_mem_of_ne (image : OptmizedImage) {address other : Nat}
    (different : other ≠ address) (value : Nat) :
    (image.storeWord address value).mem other = image.mem other :=
  Function.update_of_ne different ..

end OptmizedImage

namespace OptmizedFasas

/-- `doRecoverPrivateAddrSucc`. For an operation type without a flag it stores no value, but it
reads the word. -/
def doRecoverPrivateAddrSucc (d : Nat) : Program OptmizedImage Abort :=
  (Program.check .nullPointer fun image => (image.desc d).privateAddress != 0).andThen <|
  (Program.branch (fun image => (image.desc d).opType.recoverCASOp ||
      (image.desc d).opType.doubleCASOp || (image.desc d).opType.fasasOp)
    (.store fun image =>
      image.storeWord (image.desc d).privateAddress (image.desc d).privateValue)
    .pass).andThen <|
  .store fun image => image.setDesc d { image.desc d with isPrivateAddrSet := true }

/-- `recoverOneDescriptor` with the value of the shared word. -/
def recoverOneDescriptor (d val : Nat) : Program OptmizedImage Abort :=
  (Program.check (.rawCheck .valueNotMatch) fun image =>
    !image.tagged d val || actualValueOf val == (image.desc d).newShareVarValue).andThen <|
  .branch (fun image => (image.desc d).isPrivateAddrSet) .pass <|
    (Program.branch (fun image => (image.desc d).statusInfo.succ) (doRecoverPrivateAddrSucc d)
      (.branch (fun image => image.tagged d val)
        ((Program.store fun image => image.setDesc d { image.desc d with
          statusInfo := ⟨(image.desc d).statusInfo.seqId, true⟩ }).andThen
          (doRecoverPrivateAddrSucc d))
        .pass)).andThen <|
    .store fun image => image.setDesc d { image.desc d with isShareVarSet := true }

/-- The body of the loop of `recoverDescriptor`. -/
def recoverDescriptorAt (d : Nat) : Program OptmizedImage Abort :=
  (Program.check (.rawCheck .corruptedPool) fun image => (image.desc d).opType != .zero).andThen <|
  .branch (fun image => (image.desc d).sharedAddress == 0) .pass <|
    .read (fun image => image.target d) (recoverOneDescriptor d)

/-- `recoverDescriptor`. -/
def recoverDescriptor (poolSize : Nat) : Program OptmizedImage Abort :=
  .forEach recoverDescriptorAt (List.range poolSize)

/-! ### One descriptor -/

/-- What makes recovery write the private word of descriptor `d`. -/
def rolls (image : OptmizedImage) (d : Nat) : Bool :=
  (image.desc d).sharedAddress != 0 && !(image.desc d).isPrivateAddrSet &&
    ((image.desc d).statusInfo.succ || image.tagged d (image.target d))

/-- The check of `recoverOneDescriptor` passes. -/
def valueMatches (image : OptmizedImage) (d : Nat) : Bool :=
  !image.tagged d (image.target d) ||
    actualValueOf (image.target d) == (image.desc d).newShareVarValue

/-- What recovery of descriptor `d` has done. -/
structure Recovered (before after : OptmizedImage) (d : Nat) : Prop where
  others : ∀ e, e ≠ d → after.desc e = before.desc e
  rolled : rolls before d = true →
    after.mem = Function.update before.mem (before.desc d).privateAddress
      (before.desc d).privateValue
  left : rolls before d = false → after.mem = before.mem

/-- A private word has been written, and one descriptor changed. -/
def Wrote (before after : OptmizedImage) (d : Nat) : Prop :=
  (∀ e, e ≠ d → after.desc e = before.desc e) ∧
    after.mem = Function.update before.mem (before.desc d).privateAddress
      (before.desc d).privateValue

theorem doRecoverPrivateAddrSucc_triple {before : OptmizedImage} {d : Nat}
    (set : (before.desc d).privateAddress ≠ 0)
    (typed : ((before.desc d).opType.recoverCASOp || (before.desc d).opType.doubleCASOp ||
      (before.desc d).opType.fasasOp) = true) :
    Triple (fun image => image = before) (doRecoverPrivateAddrSucc d)
      (fun image => Wrote before image d) fun _ => True := by
  have checked : Triple (fun image => image = before)
      (Program.check Abort.nullPointer fun image => (image.desc d).privateAddress != 0)
      (fun image => image = before) fun _ => True := by
    refine Triple.check fun image same => ?_
    rw [same]
    simp [set]
  have stored : Triple (fun image => image = before)
      (Program.branch (fun image => (image.desc d).opType.recoverCASOp ||
          (image.desc d).opType.doubleCASOp || (image.desc d).opType.fasasOp)
        (.store fun image =>
          image.storeWord (image.desc d).privateAddress (image.desc d).privateValue)
        .pass : Program OptmizedImage Abort)
      (fun image => image = before.storeWord (before.desc d).privateAddress
        (before.desc d).privateValue) fun _ => True := by
    refine .branch ?_ ?_
    · refine Triple.store fun image here => ⟨?_, trivial⟩
      rw [here.1]
    · rintro image ⟨rfl, untyped⟩
      rw [typed] at untyped
      cases untyped
  refine checked.andThen (stored.andThen (Triple.store fun image same => ⟨?_, trivial⟩))
  subst same
  exact ⟨fun e different => OptmizedImage.setDesc_desc_of_ne _ different _, rfl⟩

theorem recoverOneDescriptor_triple {before : OptmizedImage} {d : Nat}
    (placed : (before.desc d).sharedAddress ≠ 0) (passes : valueMatches before d = true)
    (typed : ((before.desc d).opType.recoverCASOp || (before.desc d).opType.doubleCASOp ||
      (before.desc d).opType.fasasOp) = true)
    (set : rolls before d = true → (before.desc d).privateAddress ≠ 0) :
    Triple (fun image => image = before) (recoverOneDescriptor d (before.target d))
      (fun image => Recovered before image d) fun _ => True := by
  have checked : Triple (fun image => image = before)
      (Program.check (Abort.rawCheck .valueNotMatch) fun image =>
        !image.tagged d (before.target d) ||
          actualValueOf (before.target d) == (image.desc d).newShareVarValue)
      (fun image => image = before) fun _ => True := by
    refine Triple.check fun image same => ?_
    rw [same]
    exact passes
  refine checked.andThen (.branch ?_ ?_)
  · rintro image ⟨rfl, done⟩
    have notRolls : rolls image d = false := by
      simp [rolls, done]
    refine ⟨nofun, rfl, ⟨fun _ _ => rfl, fun absurdly => ?_, fun _ => rfl⟩⟩
    rw [notRolls] at absurdly
    cases absurdly
  · have written : rolls before d = true → (before.desc d).isPrivateAddrSet = false →
        Triple (fun image => image = before) (doRecoverPrivateAddrSucc d)
          (fun image => Wrote before image d) fun _ => True :=
      fun rolling _ => doRecoverPrivateAddrSucc_triple (set rolling) typed
    -- The three branches, before the store of `isShareVarSet_`.
    have branches : Triple
        (fun image => image = before ∧ (before.desc d).isPrivateAddrSet = false)
        (Program.branch (fun image => (image.desc d).statusInfo.succ) (doRecoverPrivateAddrSucc d)
          (.branch (fun image => image.tagged d (before.target d))
            ((Program.store fun image => image.setDesc d { image.desc d with
              statusInfo := ⟨(image.desc d).statusInfo.seqId, true⟩ }).andThen
              (doRecoverPrivateAddrSucc d))
            .pass))
        (fun image => (rolls before d = true ∧ Wrote before image d) ∨
          (rolls before d = false ∧ image = before)) fun _ => True := by
      refine .branch ?_ (.branch ?_ ?_)
      · rintro image ⟨⟨rfl, notDone⟩, succ⟩
        have rolling : rolls image d = true := by
          simp [rolls, placed, notDone, succ]
        obtain ⟨stops, ends, wrote⟩ := written rolling notDone image rfl
        exact ⟨stops, ends, .inl ⟨rolling, wrote⟩⟩
      · rintro image ⟨⟨⟨rfl, notDone⟩, -⟩, tagged⟩
        have rolling : rolls image d = true := by
          simp [rolls, placed, notDone, tagged]
        have again : Triple (fun next => next = image.setDesc d { image.desc d with
            statusInfo := ⟨(image.desc d).statusInfo.seqId, true⟩ })
            (doRecoverPrivateAddrSucc d)
            (fun next => Wrote image next d) fun _ => True := by
          refine (doRecoverPrivateAddrSucc_triple ?_ ?_).weaken (fun _ same => same)
            (fun next wrote => ?_) fun _ _ => trivial
          · simpa using set rolling
          · simpa using typed
          · refine ⟨fun e different => ?_, ?_⟩
            · rw [wrote.1 e different, OptmizedImage.setDesc_desc_of_ne _ different]
            · rw [wrote.2, OptmizedImage.setDesc_desc_self]
              rfl
        have first : Triple (fun next => next = image)
            (Program.store fun next => next.setDesc d { next.desc d with
              statusInfo := ⟨(next.desc d).statusInfo.seqId, true⟩ } : Program OptmizedImage Abort)
            (fun next => next = image.setDesc d { image.desc d with
              statusInfo := ⟨(image.desc d).statusInfo.seqId, true⟩ }) fun _ => True := by
          refine Triple.store fun next same => ⟨?_, trivial⟩
          rw [same]
        obtain ⟨stops, ends, wrote⟩ := (first.andThen again) image rfl
        exact ⟨stops, ends, .inl ⟨rolling, wrote⟩⟩
      · rintro image ⟨⟨⟨rfl, -⟩, notSucc⟩, notTagged⟩
        refine ⟨nofun, rfl, .inr ⟨?_, rfl⟩⟩
        simp [rolls, notSucc, notTagged]
    have finished : Triple
        (fun image => (rolls before d = true ∧ Wrote before image d) ∨
          (rolls before d = false ∧ image = before))
        (Program.store fun image =>
          image.setDesc d { image.desc d with isShareVarSet := true } : Program OptmizedImage Abort)
        (fun image => Recovered before image d) fun _ => True := by
      refine Triple.store fun image either => ⟨?_, trivial⟩
      rcases either with ⟨rolling, wrote⟩ | ⟨notRolling, rfl⟩
      · refine ⟨fun e different => ?_, fun _ => wrote.2, fun absurdly => ?_⟩
        · rw [OptmizedImage.setDesc_desc_of_ne _ different, wrote.1 e different]
        · rw [rolling] at absurdly
          cases absurdly
      · refine ⟨fun e different => ?_, fun absurdly => ?_, fun _ => rfl⟩
        · rw [OptmizedImage.setDesc_desc_of_ne _ different]
        · rw [notRolling] at absurdly
          cases absurdly
    exact (branches.andThen finished).weaken (fun image here => ⟨here.1, here.1 ▸ here.2⟩)
      (fun _ done => done) fun _ _ => trivial

theorem recoverDescriptorAt_triple {before : OptmizedImage} {d : Nat}
    (passes : (before.desc d).sharedAddress ≠ 0 → valueMatches before d = true)
    (typed : ((before.desc d).opType.recoverCASOp || (before.desc d).opType.doubleCASOp ||
      (before.desc d).opType.fasasOp) = true)
    (set : rolls before d = true → (before.desc d).privateAddress ≠ 0) :
    Triple (fun image => image = before) (recoverDescriptorAt d)
      (fun image => Recovered before image d) fun _ => True := by
  have checked : Triple (fun image => image = before)
      (Program.check (Abort.rawCheck .corruptedPool) fun image => (image.desc d).opType != .zero)
      (fun image => image = before) fun _ => True := by
    refine Triple.check fun image same => ?_
    rw [same, bne_iff_ne]
    intro zero
    rw [zero] at typed
    cases typed
  refine checked.andThen (.branch ?_ ?_)
  · rintro image ⟨rfl, unset⟩
    have notRolls : rolls image d = false := by
      simp [rolls, eq_of_beq unset]
    refine ⟨nofun, rfl, ⟨fun _ _ => rfl, fun absurdly => ?_, fun _ => rfl⟩⟩
    rw [notRolls] at absurdly
    cases absurdly
  · rintro image ⟨rfl, placed⟩
    have there : (image.desc d).sharedAddress ≠ 0 := by
      simpa using placed
    exact recoverOneDescriptor_triple there (passes there) typed set image rfl

/-! ### The loop -/

/-- What recovery relies on: the descriptors it rolls forward have a private word, which is no
shared word and no other descriptor's private word. -/
structure Restorable (start : OptmizedImage) : Prop where
  typed : ∀ d, ((start.desc d).opType.recoverCASOp || (start.desc d).opType.doubleCASOp ||
    (start.desc d).opType.fasasOp) = true
  set : ∀ d, rolls start d = true → (start.desc d).privateAddress ≠ 0
  apart : ∀ d e, rolls start d = true → (start.desc e).sharedAddress ≠ 0 →
    (start.desc d).privateAddress ≠ (start.desc e).sharedAddress
  own : ∀ d e, rolls start d = true → rolls start e = true →
    (start.desc d).privateAddress = (start.desc e).privateAddress → d = e

/-- What recovery has done when it is through with the descriptors of a list. -/
structure Restored (start : OptmizedImage) (done : List Nat) (image : OptmizedImage) : Prop where
  desc : ∀ e, e ∉ done → image.desc e = start.desc e
  rolled : ∀ e ∈ done, rolls start e = true →
    image.mem (start.desc e).privateAddress = (start.desc e).privateValue
  left : ∀ address, (∀ e ∈ done, rolls start e = true →
    (start.desc e).privateAddress ≠ address) → image.mem address = start.mem address

theorem restored_nil (start : OptmizedImage) : Restored start [] start :=
  ⟨fun _ _ => rfl, nofun, fun _ _ => rfl⟩

section Loop

variable {start image : OptmizedImage} {done : List Nat} {d : Nat}

theorem Restored.target (restored : Restored start done image) (restorable : Restorable start)
    (new : d ∉ done) (placed : (start.desc d).sharedAddress ≠ 0) :
    image.target d = start.target d := by
  rw [OptmizedImage.target, restored.desc d new]
  exact restored.left _ fun e _ rolling => restorable.apart e d rolling placed

theorem Restored.tagged (restored : Restored start done image) (new : d ∉ done) (val : Nat) :
    image.tagged d val = start.tagged d val := by
  rw [OptmizedImage.tagged, OptmizedImage.tagged, restored.desc d new]

theorem Restored.rolls_eq (restored : Restored start done image) (restorable : Restorable start)
    (new : d ∉ done) : rolls image d = rolls start d := by
  by_cases placed : (start.desc d).sharedAddress = 0
  · simp [rolls, restored.desc d new, placed]
  · rw [rolls, rolls, restored.target restorable new placed, restored.tagged new,
      restored.desc d new]

theorem Restored.valueMatches_eq (restored : Restored start done image)
    (restorable : Restorable start) (new : d ∉ done) (placed : (start.desc d).sharedAddress ≠ 0) :
    valueMatches image d = valueMatches start d := by
  rw [valueMatches, valueMatches, restored.target restorable new placed, restored.tagged new,
    restored.desc d new]

/-- Recovery of one more descriptor. -/
theorem Restored.recovered {after : OptmizedImage} (restored : Restored start done image)
    (restorable : Restorable start) (new : d ∉ done) (recovered : Recovered image after d) :
    Restored start (done ++ [d]) after := by
  have same := restored.rolls_eq restorable new
  have written : rolls start d = true → after.mem =
      Function.update image.mem (start.desc d).privateAddress (start.desc d).privateValue := by
    intro rolling
    rw [recovered.rolled (same.trans rolling), restored.desc d new]
  refine ⟨fun e other => ?_, fun e member rolling => ?_, fun address free => ?_⟩
  · rw [List.mem_append, List.mem_singleton, not_or] at other
    rw [recovered.others e other.2, restored.desc e other.1]
  · rcases List.mem_append.mp member with early | late
    · have kept := restored.rolled e early rolling
      cases rolls_d : rolls start d with
      | true =>
        have different : (start.desc e).privateAddress ≠ (start.desc d).privateAddress := by
          intro shared
          exact new (restorable.own e d rolling rolls_d shared ▸ early)
        rw [written rolls_d, Function.update_of_ne different, kept]
      | false => rw [recovered.left (same.trans rolls_d), kept]
    · rw [List.mem_singleton] at late
      subst late
      rw [written rolling, Function.update_self]
  · have before := restored.left address fun e member =>
      free e (List.mem_append_left _ member)
    cases rolls_d : rolls start d with
    | true =>
      have different := free d (List.mem_append_right _ (List.mem_singleton_self d)) rolls_d
      rw [written rolls_d, Function.update_of_ne different.symm, before]
    | false => rw [recovered.left (same.trans rolls_d), before]

/-- Recovery of one more descriptor, if its value matches. -/
theorem Restored.recoverDescriptorAt_run (restored : Restored start done image)
    (restorable : Restorable start) (new : d ∉ done)
    (passes : (start.desc d).sharedAddress ≠ 0 → valueMatches start d = true) :
    ∃ after, (recoverDescriptorAt d).run image = .ok after ∧ Restored start (done ++ [d]) after := by
  have triple : Triple (fun memory => memory = image) (recoverDescriptorAt d)
      (fun after => Recovered image after d) fun _ => True := by
    refine recoverDescriptorAt_triple (fun placed => ?_) ?_ fun rolling => ?_
    · rw [restored.desc d new] at placed
      rw [restored.valueMatches_eq restorable new placed]
      exact passes placed
    · rw [restored.desc d new]
      exact restorable.typed d
    · rw [restored.desc d new]
      exact restorable.set d (restored.rolls_eq restorable new ▸ rolling)
  obtain ⟨after, performed, recovered⟩ := triple.run_eq rfl
  exact ⟨after, performed, restored.recovered restorable new recovered⟩

theorem recoverDescriptorAt_not_matches (placed : (start.desc d).sharedAddress ≠ 0)
    (fails : valueMatches start d = false) : ∃ error, (recoverDescriptorAt d).run start = .error error := by
  rw [valueMatches, OptmizedImage.target] at fails
  rw [recoverDescriptorAt, Program.run_andThen]
  cases typed : ((start.desc d).opType != .zero) with
  | false =>
    refine ⟨.rawCheck .corruptedPool, ?_⟩
    simp [Program.run, Program.check, typed, Except.bind]
  | true =>
    refine ⟨.rawCheck .valueNotMatch, ?_⟩
    have checked : (Program.check (Abort.rawCheck .corruptedPool)
        fun image => (image.desc d).opType != .zero : Program OptmizedImage Abort).run start =
        .ok start := by
      simp [Program.run, Program.final, Program.check, typed]
    have there : ((start.desc d).sharedAddress == 0) = false := by
      simpa using placed
    rw [checked]
    simp only [Except.bind, Program.run, Program.final, Program.branch, there, Program.read,
      recoverOneDescriptor, Program.andThen, Program.check, OptmizedImage.target, fails]
    rfl

theorem recoverDescriptor_succ_run (poolSize : Nat) (start : OptmizedImage) :
    (recoverDescriptor (poolSize + 1)).run start =
      ((recoverDescriptor poolSize).run start).bind (recoverDescriptorAt poolSize).run := by
  rw [recoverDescriptor, List.range_succ, Program.forEach_append, Program.run_andThen]
  congr 1
  funext image
  show ((recoverDescriptorAt poolSize).andThen .pass).run image = _
  rw [Program.run_andThen]
  cases (recoverDescriptorAt poolSize).run image with
  | ok after => rfl
  | error error => rfl

/-- Recovery ends without an error if the values of all descriptors match. -/
theorem recoverDescriptor_run (restorable : Restorable start) (poolSize : Nat)
    (passes : ∀ d < poolSize, (start.desc d).sharedAddress ≠ 0 → valueMatches start d = true) :
    ∃ image, (recoverDescriptor poolSize).run start = .ok image ∧
      Restored start (List.range poolSize) image := by
  induction poolSize with
  | zero => exact ⟨start, rfl, restored_nil start⟩
  | succ poolSize inductionHypothesis =>
    obtain ⟨image, performed, restored⟩ := inductionHypothesis fun d below =>
      passes d (Nat.lt_succ_of_lt below)
    obtain ⟨after, last, done⟩ := restored.recoverDescriptorAt_run restorable List.not_mem_range_self
      (passes poolSize (Nat.lt_succ_self poolSize))
    refine ⟨after, ?_, ?_⟩
    · rw [recoverDescriptor_succ_run, performed]
      exact last
    · rw [List.range_succ]
      exact done

/-- Recovery fails its check if the value of some descriptor does not match. -/
theorem recoverDescriptor_run_error (restorable : Restorable start) (poolSize : Nat)
    (fails : ∃ d < poolSize, (start.desc d).sharedAddress ≠ 0 ∧ valueMatches start d = false) :
    ∃ error, (recoverDescriptor poolSize).run start = .error error := by
  induction poolSize with
  | zero =>
    obtain ⟨d, below, -⟩ := fails
    exact absurd below (Nat.not_lt_zero d)
  | succ poolSize inductionHypothesis =>
    rw [recoverDescriptor_succ_run]
    by_cases earlier : ∃ d < poolSize, (start.desc d).sharedAddress ≠ 0 ∧
        valueMatches start d = false
    · obtain ⟨error, failed⟩ := inductionHypothesis earlier
      exact ⟨error, by rw [failed]; rfl⟩
    · have passes : ∀ d < poolSize, (start.desc d).sharedAddress ≠ 0 →
          valueMatches start d = true := by
        intro d below placed
        by_contra fails
        exact earlier ⟨d, below, placed, by simpa using fails⟩
      obtain ⟨d, below, placed, mismatch⟩ := fails
      have here : d = poolSize := by
        by_contra other
        exact earlier ⟨d, by omega, placed, mismatch⟩
      subst here
      obtain ⟨image, performed, restored⟩ := recoverDescriptor_run restorable d passes
      rw [performed]
      refine recoverDescriptorAt_not_matches ?_ ?_
      · rw [restored.desc d List.not_mem_range_self]
        exact placed
      · rw [restored.valueMatches_eq restorable List.not_mem_range_self placed]
        exact mismatch

end Loop

end OptmizedFasas

end Pmwcas
