/-
This file is about a constructor `FASASDescriptorPool::FASASDescriptorPool` that is stopped between
two of its stores and run again, along the lines of `Restarting.lean`.

There are two kinds of stops that a second run does not get over. The construction marks a
descriptor with the store to its `opType_`, and a pool in which the first descriptor is marked and
the last one is not counts as corrupted. And the clearing removes the address of a shared word
before it removes the mark, so that the second run follows a null pointer if the first descriptor
was in use.
-/

import Pmwcas.FasasRecovery
import Pmwcas.Restarting

namespace Pmwcas

open Stores

variable {pool : Pool}

/-! ### Settled descriptors -/

/-- The old values of the operations in the image are no addresses of descriptors of the pool. -/
def FASASImage.ContractValues (pool : Pool) (image : FASASImage) : Prop :=
  ∀ d, d < pool.size → (image.desc d).privateAddress ≠ .null →
    ∀ e, e < pool.size → (image.desc d).oldValue.rest ≠ pool.fasasAddress e

/-- Recovery has stored to user words only. -/
def FASASImage.SameDescriptors (start image : FASASImage) : Prop :=
  image.desc = start.desc ∧ image.metadata = start.metadata

/-- The descriptor has nothing left to do with its shared word. -/
def FASASImage.SettledDescriptor (pool : Pool) (start : FASASImage) (d : Nat) (image : FASASImage) :
    Prop :=
  (start.desc d).privateAddress ≠ .null → (start.desc d).address ≠ 0 ∧
    ((start.desc d).privateAddress.statusFlg = false →
      (image.mem (start.desc d).address).rest ≠ pool.fasasAddress d)

/-- Whether recovery puts the old value back. -/
def pointsToFASAS (pool : Pool) (d : Nat) (image : FASASImage) : Bool :=
  decide ((image.desc d).privateAddress.statusFlg = false ∧
    (image.target d).rest = pool.fasasAddress d)

/-- The status is never `SuccStatus`, as it is the masked flag: only the branch for failed
operations can be taken. -/
theorem recoverForFASAS_eq (d : Nat) (image : FASASImage) :
    recoverForFASAS pool d (image.desc d).privateAddress.getStatus (image.target d).cleanPtr =
      if pointsToFASAS pool d image then doRecoverShareAddrFail d else .pass := by
  have never : (image.desc d).privateAddress.getStatus ≠ succStatus :=
    PrivateAddress.getStatus_ne_one _
  have failed : (image.desc d).privateAddress.getStatus = failedStatus ↔
      (image.desc d).privateAddress.statusFlg = false := by
    unfold PrivateAddress.getStatus
    cases (image.desc d).privateAddress.statusFlg with
    | true => decide
    | false => decide
  have points : (image.target d).cleanPtr = .plain (pool.fasasAddress d) ↔
      (image.target d).rest = pool.fasasAddress d :=
    ⟨fun same => congrArg Word.rest same, fun same => by rw [Word.cleanPtr, same]⟩
  rw [recoverForFASAS, if_neg never]
  simp only [failed, points, pointsToFASAS, decide_eq_true_eq]

/-- The body of the recovery loop without the branches that are never taken. -/
def rollBackFASAS (pool : Pool) (d : Nat) : Program FASASImage Abort :=
  .branch (fun image => (image.desc d).privateAddress == .null) .pass <|
    (Program.check .nullPointer fun image => (image.desc d).address != 0).andThen <|
    .branch (pointsToFASAS pool d) (doRecoverShareAddrFail d) .pass

theorem recoverFASASDescriptor_eq (d : Nat) :
    recoverFASASDescriptor pool d = rollBackFASAS pool d := by
  unfold recoverFASASDescriptor rollBackFASAS
  congr 2
  funext image
  show recoverForFASAS pool d (image.desc d).privateAddress.getStatus (image.target d).cleanPtr image =
    if pointsToFASAS pool d image then doRecoverShareAddrFail d image else Program.pass image
  rw [recoverForFASAS_eq]
  split <;> rfl

section

variable {start : FASASImage} (ok : start.ContractValues pool)

include ok

theorem rollBackFASAS_keeps {d : Nat} (inside : d < pool.size) :
    Keeps (rollBackFASAS pool d) (start.SameDescriptors ·) ∧ ∀ e, e < pool.size →
      Keeps (rollBackFASAS pool d) fun image => start.SameDescriptors image ∧
        start.SettledDescriptor pool e image := by
  have nothing : ∀ {invariant : FASASImage → Prop},
      Keeps (Program.pass : Program FASASImage Abort) invariant :=
    fun _ _ _ impossible => absurd impossible List.not_mem_nil
  refine ⟨.branch nothing (.andThen (.check _ _) (.branch (.store ?_) nothing)), ?_⟩
  · exact fun image same => same
  · intro e insideOther
    rintro image ⟨same, settled⟩ other member
    unfold rollBackFASAS Program.branch at member
    split at member
    · cases member
    · rename_i used
      have member := Program.mem_images_of_check member
      split at member
      · cases List.mem_singleton.mp member
        refine ⟨same, ?_⟩
        intro usedOther
        obtain ⟨present, rest⟩ := settled usedOther
        refine ⟨present, ?_⟩
        intro failed
        show (Function.update image.mem (image.desc d).address (image.desc d).oldValue
          (start.desc e).address).rest ≠ _
        by_cases here : (start.desc e).address = (image.desc d).address
        · rw [here, Function.update_self, same.1]
          refine ok d inside ?_ e insideOther
          rw [← same.1]
          exact fun null => used (beq_iff_eq.mpr null)
        · rw [Function.update_of_ne here]
          exact rest failed
      · cases member

theorem rollBackFASAS_settles {d : Nat} (inside : d < pool.size) {image : FASASImage}
    (same : start.SameDescriptors image) (passes : (rollBackFASAS pool d image).error = none) :
    start.SettledDescriptor pool d ((rollBackFASAS pool d).final image) := by
  intro used
  have isUsed : ((image.desc d).privateAddress == .null) = false := by
    rw [same.1]
    exact beq_eq_false_iff_ne.mpr used
  have program : rollBackFASAS pool d image =
      ((Program.check .nullPointer fun image => (image.desc d).address != 0).andThen
        (.branch (pointsToFASAS pool d) (doRecoverShareAddrFail d) .pass)) image := by
    refine Program.branch_of_false ?_
    exact isUsed
  unfold Program.final
  rw [program] at passes ⊢
  have checked := Program.error_first_of_andThen passes
  have present : ((image.desc d).address != 0) = true := Program.test_of_check checked
  rw [same.1] at present
  refine ⟨bne_iff_ne.mp present, ?_⟩
  intro failed
  rw [Program.images_andThen checked]
  show (FASASImage.mem (List.getLastD (Program.branch (pointsToFASAS pool d)
    (doRecoverShareAddrFail d) .pass image).images image) (start.desc d).address).rest ≠ _
  unfold Program.branch
  split
  · show (Function.update image.mem (image.desc d).address (image.desc d).oldValue
      (start.desc d).address).rest ≠ _
    rw [same.1, Function.update_self]
    exact ok d inside used d inside
  · rename_i differs
    show (image.mem (start.desc d).address).rest ≠ _
    have differs := of_decide_eq_false (Bool.eq_false_iff.mpr differs)
    rw [FASASImage.target, same.1] at differs
    exact fun points => differs ⟨failed, points⟩

omit ok in
theorem rollBackFASAS_quiet {d : Nat} {image : FASASImage} (same : start.SameDescriptors image)
    (settled : start.SettledDescriptor pool d image) : Quiet (rollBackFASAS pool d) image := by
  refine .branch (fun _ => rfl) fun used => ?_
  rw [same.1] at used
  obtain ⟨present, rest⟩ := settled (beq_eq_false_iff_ne.mp used)
  refine (Quiet.check ?_).andThen (.branch (fun points => ?_) fun _ => rfl)
  · rw [same.1]
    exact bne_iff_ne.mpr present
  · have points := of_decide_eq_true points
    rw [FASASImage.target, same.1] at points
    exact absurd points.2 (rest points.1)

theorem rollBackFASAS_resumes {d : Nat} (inside : d < pool.size) {image : FASASImage}
    (same : start.SameDescriptors image) : Resumes (rollBackFASAS pool d) image := by
  refine .of_quiet_final ?_ ?_
  · intro other member
    refine Program.eq_final_of_mem ?_ member
    unfold rollBackFASAS Program.branch
    split
    · exact Nat.zero_le _
    · refine Nat.le_trans Program.length_images_of_check ?_
      split
      · exact Nat.le_refl _
      · exact Nat.zero_le _
  · intro passes _
    exact rollBackFASAS_quiet ((rollBackFASAS_keeps ok inside).1.final same)
      (rollBackFASAS_settles ok inside same passes)

theorem fasas_settling {descriptors : List Nat} (inside : ∀ d ∈ descriptors, d < pool.size) :
    Settling (start.SameDescriptors ·) (start.SettledDescriptor pool ·) (rollBackFASAS pool)
      descriptors where
  keeps d member := (rollBackFASAS_keeps ok (inside d member)).1
  stays d member e memberOther :=
    (rollBackFASAS_keeps ok (inside d member)).2 e (inside e memberOther)
  settles d member _ same passes := rollBackFASAS_settles ok (inside d member) same passes
  quiet _ _ _ same settled := rollBackFASAS_quiet same settled
  resumes d member _ same := rollBackFASAS_resumes ok (inside d member) same

/-! ### The recovery loop -/

/-- Without unmarked descriptors the recovery loop is a loop over descriptors. -/
theorem recoverFASASLoop_eq {descriptors : List Nat}
    (marked : ∀ d ∈ descriptors, d < pool.size ∧ (start.desc d).opType ≠ .zero) {image : FASASImage}
    (same : start.SameDescriptors image) :
    recoverFASASLoop pool descriptors image =
      Program.forEach (rollBackFASAS pool) descriptors image := by
  induction descriptors generalizing image with
  | nil => rfl
  | cons d rest inductionHypothesis =>
    obtain ⟨inside, isMarked⟩ := marked d List.mem_cons_self
    have rest : ∀ {other : FASASImage}, start.SameDescriptors other →
        recoverFASASLoop pool rest other = Program.forEach (rollBackFASAS pool) rest other :=
      inductionHypothesis fun e member => marked e (List.mem_cons_of_mem _ member)
    refine (Program.branch_of_false ?_).trans ?_
    · rw [same.1]
      exact beq_eq_false_iff_ne.mpr isMarked
    · rw [recoverFASASDescriptor_eq]
      show ((rollBackFASAS pool d).andThen (recoverFASASLoop pool _)) image =
        ((rollBackFASAS pool d).andThen _) image
      unfold Program.andThen
      rw [rest ((rollBackFASAS_keeps ok inside).1.final same)]

/-- A recovery loop that passes has met no unmarked descriptor. -/
theorem recoverFASASLoop_marked {descriptors : List Nat} (inside : ∀ d ∈ descriptors, d < pool.size)
    (notNew : (start.desc 0).opType ≠ .zero) {image : FASASImage} (same : start.SameDescriptors image)
    (passes : (recoverFASASLoop pool descriptors image).error = none) :
    ∀ d ∈ descriptors, (start.desc d).opType ≠ .zero := by
  induction descriptors generalizing image with
  | nil => exact fun d member => absurd member List.not_mem_nil
  | cons d rest inductionHypothesis =>
    unfold recoverFASASLoop Program.branch at passes
    split at passes
    · rename_i unmarked
      have unmarked : (image.desc d).opType = .zero := beq_iff_eq.mp unmarked
      rw [same.1] at unmarked
      have first : d = 0 := beq_iff_eq.mp (Program.test_of_check passes)
      subst first
      exact absurd unmarked notNew
    · rename_i isMarked
      have here := Program.error_first_of_andThen passes
      rw [Program.error_andThen here, recoverFASASDescriptor_eq] at passes
      have keeps := (rollBackFASAS_keeps ok (inside d List.mem_cons_self)).1
      have later := inductionHypothesis (fun e member => inside e (List.mem_cons_of_mem _ member))
        (keeps.final same) passes
      intro e member
      rcases List.mem_cons.mp member with rfl | rest
      · rw [← same.1]
        exact fun unmarked => isMarked (beq_iff_eq.mpr unmarked)
      · exact later e rest

end

theorem recoverFASAS_of_marked {image : FASASImage} (notNew : (image.desc 0).opType ≠ .zero) :
    recoverFASAS pool image = recoverFASASLoop pool (List.range pool.size) image := by
  refine Program.branch_of_false ?_
  exact beq_eq_false_iff_ne.mpr notNew

/-- A recovery that passes has found the address of a first descriptor in use. -/
theorem address_of_recoverFASAS {image : FASASImage} (inhabited : 0 < pool.size)
    (notNew : (image.desc 0).opType ≠ .zero) (used : (image.desc 0).privateAddress ≠ .null)
    (passes : (recoverFASAS pool image).error = none) : (image.desc 0).address ≠ 0 := by
  obtain ⟨rest, range⟩ : ∃ rest, List.range pool.size = 0 :: rest := by
    obtain ⟨size, same⟩ := Nat.exists_eq_succ_of_ne_zero (Nat.ne_of_gt inhabited)
    exact ⟨_, by rw [same, List.range_succ_eq_map]⟩
  have loop : recoverFASAS pool image =
      ((recoverFASASDescriptor pool 0).andThen (recoverFASASLoop pool rest)) image := by
    rw [recoverFASAS_of_marked notNew, range]
    refine Program.branch_of_false ?_
    exact beq_eq_false_iff_ne.mpr notNew
  rw [loop] at passes
  have first := Program.error_first_of_andThen passes
  have program : rollBackFASAS pool 0 image =
      ((Program.check .nullPointer fun image => (image.desc 0).address != 0).andThen
        (.branch (pointsToFASAS pool 0) (doRecoverShareAddrFail 0) .pass)) image := by
    refine Program.branch_of_false ?_
    exact beq_eq_false_iff_ne.mpr used
  rw [recoverFASASDescriptor_eq, program] at first
  have present := Program.test_of_check (Program.error_first_of_andThen first)
  exact bne_iff_ne.mp present

theorem recoverFASAS_quiet_of_new {image : FASASImage} (new : (image.desc 0).opType = .zero) :
    Quiet (recoverFASAS pool) image := by
  refine .branch (fun _ => rfl) fun notNew => ?_
  rw [new] at notNew
  cases notNew

section

variable {start : FASASImage} (ok : start.ContractValues pool)

include ok

omit ok in
/-- A recovery with nothing to do: all descriptors are marked and settled. -/
theorem recoverFASAS_quiet {image : FASASImage} (marked : ∀ d, d < pool.size →
      (image.desc d).opType ≠ .zero)
    (settled : ∀ d, d < pool.size → image.SettledDescriptor pool d image) :
    Quiet (recoverFASAS pool) image := by
  have loop : ∀ descriptors : List Nat, (∀ d ∈ descriptors, d < pool.size) →
      Quiet (recoverFASASLoop pool descriptors) image := by
    intro descriptors inside
    induction descriptors with
    | nil => rfl
    | cons d rest inductionHypothesis =>
      have here := inside d List.mem_cons_self
      refine .branch (fun unmarked => ?_) fun _ => Quiet.andThen ?_
        (inductionHypothesis fun e member => inside e (List.mem_cons_of_mem _ member))
      · exact absurd (beq_iff_eq.mp unmarked) (marked d here)
      · rw [recoverFASASDescriptor_eq]
        exact rollBackFASAS_quiet ⟨rfl, rfl⟩ (settled d here)
  exact .branch (fun _ => rfl) fun _ => loop _ fun d member => List.mem_range.mp member

/-- What a recovery that passes does: nothing, or the loop over marked descriptors. -/
theorem recoverFASAS_loop (passes : (recoverFASAS pool start).error = none)
    (notNew : (start.desc 0).opType ≠ .zero) :
    (∀ d, d < pool.size → (start.desc d).opType ≠ .zero) ∧ ∀ image : FASASImage,
      start.SameDescriptors image → recoverFASAS pool image =
        Program.forEach (rollBackFASAS pool) (List.range pool.size) image := by
  rw [recoverFASAS_of_marked notNew] at passes
  have marked := recoverFASASLoop_marked ok (fun d member => List.mem_range.mp member) notNew
    ⟨rfl, rfl⟩ passes
  refine ⟨fun d inside => marked d (List.mem_range.mpr inside), ?_⟩
  intro image same
  have notNewThere : (image.desc 0).opType ≠ .zero := by
    rw [same.1]
    exact notNew
  rw [recoverFASAS_of_marked notNewThere]
  exact recoverFASASLoop_eq ok (fun d member => ⟨List.mem_range.mp member, marked d member⟩) same

theorem recoverFASAS_keeps (passes : (recoverFASAS pool start).error = none) :
    ∀ image ∈ (recoverFASAS pool start).images, start.SameDescriptors image := by
  by_cases new : (start.desc 0).opType = .zero
  · rw [recoverFASAS_quiet_of_new new]
    exact fun image impossible => absurd impossible List.not_mem_nil
  · rw [(recoverFASAS_loop ok passes new).2 start ⟨rfl, rfl⟩]
    exact (fasas_settling ok fun d member => List.mem_range.mp member).keeps_forEach start ⟨rfl, rfl⟩

theorem recoverFASAS_final (passes : (recoverFASAS pool start).error = none) :
    start.SameDescriptors ((recoverFASAS pool).final start) := by
  have kept := recoverFASAS_keeps ok passes
  rw [← Program.stopAfter_of_length_le (Nat.le_refl _)]
  rcases (recoverFASAS pool).stopAfter_mem (recoverFASAS pool start).images.length start with
    nothing | stored
  · rw [nothing]
    exact ⟨rfl, rfl⟩
  · exact kept _ stored

/-- A stopped recovery resumes. -/
theorem recoverFASAS_resumes : Resumes (recoverFASAS pool) start := by
  intro passes image member
  by_cases new : (start.desc 0).opType = .zero
  · rw [recoverFASAS_quiet_of_new new] at member
    cases member
  · have loop := (recoverFASAS_loop ok passes new).2
    have same := recoverFASAS_keeps ok passes image member
    rw [loop start ⟨rfl, rfl⟩] at passes member
    have resumes := (fasas_settling ok fun d member => List.mem_range.mp member).resumes_forEach
      ⟨rfl, rfl⟩ passes image member
    unfold Program.run Program.final at resumes ⊢
    rw [loop image same, loop start ⟨rfl, rfl⟩]
    exact resumes

/-- After a recovery that has passed all descriptors are settled. -/
theorem recoverFASAS_settled (passes : (recoverFASAS pool start).error = none)
    (notNew : (start.desc 0).opType ≠ .zero) {d : Nat} (inside : d < pool.size) :
    start.SettledDescriptor pool d ((recoverFASAS pool).final start) := by
  have loop := (recoverFASAS_loop ok passes notNew).2 start ⟨rfl, rfl⟩
  unfold Program.final
  rw [loop] at passes ⊢
  exact (fasas_settling ok fun d member => List.mem_range.mp member).settled_forEach ⟨rfl, rfl⟩
    passes d (List.mem_range.mpr inside)

end

/-! ### Clearing and construction -/

section

variable {source : FASASDescriptor} {fields : List FASASField} {stores d : Nat} {image : FASASImage}

theorem storeFASAS_desc (source : FASASDescriptor) (d : Nat) (field : FASASField)
    (image : FASASImage) (e : Nat) : (image.storeField d source field).desc e =
      if e = d then source.copyField (image.desc d) field else image.desc e := by
  show Function.update image.desc d (source.copyField (image.desc d) field) e = _
  rw [Function.update_apply]

theorem storeAllFASAS_mem : ((storeAllFASAS pool source fields).stopAfter stores image).mem =
      image.mem ∧
    ((storeAllFASAS pool source fields).stopAfter stores image).metadata = image.metadata := by
  refine ⟨Program.view_fill _ _ FASASImage.mem ?_ _ _ _,
    Program.view_fill _ _ FASASImage.metadata ?_ _ _ _⟩
  · exact fun _ _ _ => rfl
  · exact fun _ _ _ => rfl

theorem storeAllFASAS_desc (inside : d < pool.size) :
    ((storeAllFASAS pool source fields).stopAfter stores image).desc d =
      source.copyFields (fields.take (stores - fields.length * d)) (image.desc d) := by
  refine (Program.get_fill _ _ FASASImage.desc (fun _ field target => source.copyField target field)
    (storeFASAS_desc source) _ _ _ _).trans ?_
  rw [if_pos inside]
  rfl

theorem storeAllFASAS_length :
    (storeAllFASAS pool source fields image).images.length = fields.length * pool.size :=
  Program.fill_length _ _ _ _

theorem storeAllFASAS_error : (storeAllFASAS pool source fields image).error = none :=
  Program.fill_error _ _ _ _

theorem storeAllFASAS_final : (storeAllFASAS pool source fields).final image =
    (storeAllFASAS pool source fields).stopAfter (fields.length * pool.size) image :=
  (Program.stopAfter_of_length_le (Nat.le_of_eq storeAllFASAS_length)).symm

/-- A descriptor that has been cleared. -/
theorem cleared_desc (inside : d < pool.size) :
    ((storeAllFASAS pool .zero FASASField.all).final image).desc d = .zero := by
  have enough : FASASField.all.length ≤ FASASField.all.length * pool.size -
      FASASField.all.length * d := by
    rw [← Nat.mul_sub]
    exact Nat.le_mul_of_pos_right _ (by omega)
  rw [storeAllFASAS_final, storeAllFASAS_desc inside, List.take_of_length_le enough]
  rfl

/-- A descriptor of a stopped construction: marked from its third store on, and free. -/
theorem stopped_fasas_desc (inside : d < pool.size) :
    let descriptor := ((storeAllFASAS pool .initialized FASASField.constructed).stopAfter stores
      ((storeAllFASAS pool .zero FASASField.all).final image)).desc d
    (descriptor.opType = if 6 * d + 2 < stores then .fasas else .zero) ∧
      descriptor.privateAddress = .null := by
  intro descriptor
  have content : descriptor = FASASDescriptor.initialized.copyFields
      (FASASField.constructed.take (stores - 6 * d)) .zero := by
    show ((storeAllFASAS pool .initialized FASASField.constructed).stopAfter stores _).desc d = _
    rw [storeAllFASAS_desc inside, cleared_desc inside]
    rfl
  rw [content]
  have cases : stores - 6 * d = 0 ∨ stores - 6 * d = 1 ∨ stores - 6 * d = 2 ∨
      ∃ more, stores - 6 * d = more + 3 := by
    match stores - 6 * d with
    | 0 => exact Or.inl rfl
    | 1 => exact Or.inr (Or.inl rfl)
    | 2 => exact Or.inr (Or.inr (Or.inl rfl))
    | more + 3 => exact Or.inr (Or.inr (Or.inr ⟨more, rfl⟩))
  rcases cases with here | here | here | ⟨more, here⟩
  · rw [here, if_neg (by omega)]
    exact ⟨rfl, rfl⟩
  · rw [here, if_neg (by omega)]
    exact ⟨rfl, rfl⟩
  · rw [here, if_neg (by omega)]
    exact ⟨rfl, rfl⟩
  · rw [here, if_pos (by omega)]
    match more with
    | 0 => exact ⟨rfl, rfl⟩
    | 1 => exact ⟨rfl, rfl⟩
    | 2 => exact ⟨rfl, rfl⟩
    | more + 3 =>
      rw [List.take_of_length_le (by simp [FASASField.constructed])]
      exact ⟨rfl, rfl⟩

/-- Descriptor `d` while it is cleared: the address goes first, the mark with the fourth store. -/
theorem clearing_desc (inside : d < pool.size) (started : 5 * d < stores) :
    let descriptor := ((storeAllFASAS pool .zero FASASField.all).stopAfter stores image).desc d
    descriptor.address = 0 ∧ (5 * d + 3 < stores → descriptor.opType = .zero) ∧
      (stores ≤ 5 * d + 3 → descriptor.opType = (image.desc d).opType ∧
        descriptor.privateAddress = (image.desc d).privateAddress) := by
  intro descriptor
  have content : descriptor = FASASDescriptor.zero.copyFields
      (FASASField.all.take (stores - 5 * d)) (image.desc d) := storeAllFASAS_desc inside
  rw [content]
  obtain ⟨written, here⟩ : ∃ written, stores - 5 * d = written + 1 := ⟨stores - 5 * d - 1, by omega⟩
  rw [here]
  match written with
  | 0 => exact ⟨rfl, fun late => absurd late (by omega), fun _ => ⟨rfl, rfl⟩⟩
  | 1 => exact ⟨rfl, fun late => absurd late (by omega), fun _ => ⟨rfl, rfl⟩⟩
  | 2 => exact ⟨rfl, fun late => absurd late (by omega), fun _ => ⟨rfl, rfl⟩⟩
  | 3 => exact ⟨rfl, fun _ => rfl, fun early => absurd early (by omega)⟩
  | written + 4 =>
    rw [List.take_of_length_le (by simp [FASASField.all])]
    exact ⟨rfl, fun _ => rfl, fun early => absurd early (by omega)⟩

/-- Descriptors that the clearing has not reached. -/
theorem uncleared_desc (inside : d < pool.size) (before : stores ≤ 5 * d) :
    ((storeAllFASAS pool .zero FASASField.all).stopAfter stores image).desc d = image.desc d := by
  rw [storeAllFASAS_desc inside]
  have nothing : stores - FASASField.all.length * d = 0 := Nat.sub_eq_zero_of_le before
  rw [nothing]
  rfl

end

/-! ### The constructor, stopped and run again -/

/-- Clearing and construction of all descriptors. -/
def rebuildFASAS (pool : Pool) (partitionCount : Nat) : Program FASASImage Abort :=
  (storeAllFASAS pool .zero FASASField.all).andThen <|
    (Program.check (.rawCheck .tooManyPartitions) fun _ => partitionCount < pool.size).andThen <|
    storeAllFASAS pool .initialized FASASField.constructed

theorem fasasDescriptorPool_eq (partitionCount : Nat) : fasasDescriptorPool pool partitionCount =
    (checkFASASMetadata pool).andThen
      ((recoverFASAS pool).andThen (rebuildFASAS pool partitionCount)) := rfl

theorem rebuildFASAS_eq {partitionCount : Nat} (partitions : partitionCount < pool.size) :
    rebuildFASAS pool partitionCount = (storeAllFASAS pool .zero FASASField.all).andThen
      (storeAllFASAS pool .initialized FASASField.constructed) := by
  unfold rebuildFASAS
  congr 1
  funext image
  refine Quiet.andThen_eq (.check ?_)
  exact decide_eq_true partitions

theorem rebuildFASAS_passes {partitionCount : Nat} (partitions : partitionCount < pool.size)
    (image : FASASImage) :
    (rebuildFASAS pool partitionCount image).error = none ∧
      (rebuildFASAS pool partitionCount image).images.length = 11 * pool.size ∧
      ((rebuildFASAS pool partitionCount).final image).mem = image.mem := by
  rw [rebuildFASAS_eq partitions]
  have clears : (storeAllFASAS pool .zero FASASField.all image).error = none := storeAllFASAS_error
  refine ⟨?_, ?_, ?_⟩
  · rw [Program.error_andThen clears]
    exact storeAllFASAS_error
  · rw [Program.images_andThen clears, List.length_append, storeAllFASAS_length,
      storeAllFASAS_length]
    show 5 * pool.size + 6 * pool.size = _
    omega
  · rw [Program.final_andThen clears, storeAllFASAS_final, storeAllFASAS_mem.1, storeAllFASAS_final,
      storeAllFASAS_mem.1]

theorem checkFASASMetadata_quiet {image : FASASImage} (accepted : image.metadata = pool.metadata) :
    Quiet (checkFASASMetadata pool) image := by
  refine (Quiet.check ?_).andThen (Quiet.check ?_)
  · rw [accepted]
    exact beq_self_eq_true _
  · rw [accepted]
    exact beq_self_eq_true _

/-- What a passing run of the constructor does. -/
structure ConstructsFASAS (pool : Pool) (partitionCount : Nat) (image : FASASImage) : Prop where
  accepted : image.metadata = pool.metadata
  recovers : (recoverFASAS pool image).error = none
  partitions : partitionCount < pool.size

section

variable {partitionCount : Nat} {image : FASASImage}

theorem constructsFASAS_of_passes
    (passes : (fasasDescriptorPool pool partitionCount image).error = none) :
    ConstructsFASAS pool partitionCount image := by
  have metadata := Program.error_first_of_andThen passes
  have first := Program.test_of_check (Program.error_first_of_andThen metadata)
  rw [checkFASASMetadata, Program.error_andThen (Program.error_first_of_andThen metadata)] at metadata
  have second := Program.test_of_check metadata
  have first : image.metadata.initialAddress = pool.base - sizeofMetadata := beq_iff_eq.mp first
  have second : image.metadata.descriptorCount = pool.size := beq_iff_eq.mp second
  have accepted : image.metadata = pool.metadata := by
    cases content : image.metadata with
    | mk descriptorCount initialAddress =>
      rw [content] at first second
      rw [Pool.metadata, ← first, ← second]
  rw [fasasDescriptorPool_eq, (checkFASASMetadata_quiet accepted).andThen_eq] at passes
  have recovers := Program.error_first_of_andThen passes
  refine ⟨accepted, recovers, ?_⟩
  rw [Program.error_andThen recovers, rebuildFASAS, Program.error_andThen storeAllFASAS_error] at passes
  have checked := Program.test_of_check (Program.error_first_of_andThen passes)
  exact of_decide_eq_true checked

variable (constructs : ConstructsFASAS pool partitionCount image)

include constructs

theorem fasasDescriptorPool_length : (fasasDescriptorPool pool partitionCount image).images.length =
    (recoverFASAS pool image).images.length + 11 * pool.size := by
  rw [fasasDescriptorPool_eq, (checkFASASMetadata_quiet constructs.accepted).andThen_eq,
    Program.images_andThen constructs.recovers, List.length_append,
    (rebuildFASAS_passes constructs.partitions _).2.1]

/-- Where a stopped constructor is. -/
theorem fasasDescriptorPool_stopAfter (count : Nat) :
    (fasasDescriptorPool pool partitionCount).stopAfter count image =
      if count ≤ (recoverFASAS pool image).images.length then (recoverFASAS pool).stopAfter count image
      else if count - (recoverFASAS pool image).images.length ≤ 5 * pool.size then
        (storeAllFASAS pool .zero FASASField.all).stopAfter
          (count - (recoverFASAS pool image).images.length) ((recoverFASAS pool).final image)
      else (storeAllFASAS pool .initialized FASASField.constructed).stopAfter
        (count - (recoverFASAS pool image).images.length - 5 * pool.size)
        ((storeAllFASAS pool .zero FASASField.all).final ((recoverFASAS pool).final image)) := by
  have same : (fasasDescriptorPool pool partitionCount).stopAfter count image =
      ((recoverFASAS pool).andThen (rebuildFASAS pool partitionCount)).stopAfter count image := by
    unfold Program.stopAfter
    rw [fasasDescriptorPool_eq, (checkFASASMetadata_quiet constructs.accepted).andThen_eq]
  rw [same, Program.stopAfter_andThen constructs.recovers, rebuildFASAS_eq constructs.partitions,
    Program.stopAfter_andThen storeAllFASAS_error, storeAllFASAS_length]
  rfl

/-- A construction that was stopped between the first and the last mark is taken for a corrupted
pool. -/
theorem fasasDescriptorPool_corrupted {count : Nat}
    (first : 4 ≤ (fasasDescriptorPool pool partitionCount image).images.length - count)
    (last : (fasasDescriptorPool pool partitionCount image).images.length - count + 3 ≤
      6 * pool.size) :
    ¬ Restarts (fasasDescriptorPool pool partitionCount) FASASImage.mem count image := by
  rw [fasasDescriptorPool_length constructs] at first last
  rintro ⟨-, again, -, passes, -⟩
  have passes := (Program.error_of_run passes).1
  rw [fasasDescriptorPool_stopAfter constructs, if_neg (by omega), if_neg (by omega)] at passes
  have recovers := (constructsFASAS_of_passes passes).recovers
  have inhabited : 0 < pool.size := Nat.lt_of_le_of_lt (Nat.zero_le _) constructs.partitions
  generalize stored : count - (recoverFASAS pool image).images.length - 5 * pool.size = stores
    at recovers
  generalize halted : (storeAllFASAS pool .initialized FASASField.constructed).stopAfter stores
    ((storeAllFASAS pool .zero FASASField.all).final ((recoverFASAS pool).final image)) = stopped
    at recovers
  have content : ∀ d, d < pool.size →
      ((stopped.desc d).opType = if 6 * d + 2 < stores then .fasas else .zero) ∧
        (stopped.desc d).privateAddress = .null := by
    intro d inside
    rw [← halted]
    exact stopped_fasas_desc inside
  have values : stopped.ContractValues pool :=
    fun d inside used => absurd (content d inside).2 used
  have notNew : (stopped.desc 0).opType ≠ .zero := by
    rw [(content 0 inhabited).1, if_pos (by omega)]
    decide
  have marked := (recoverFASAS_loop values recovers notNew).1 (pool.size - 1) (by omega)
  rw [(content (pool.size - 1) (by omega)).1, if_neg (by omega)] at marked
  exact marked rfl

/-- A clearing that was stopped between the address and the mark of the first descriptor, which was
in use, makes the second run follow a null pointer. -/
theorem fasasDescriptorPool_nullPointer {count : Nat} (values : image.ContractValues pool)
    (notNew : (image.desc 0).opType ≠ .zero) (used : (image.desc 0).privateAddress ≠ .null)
    (first : 11 * pool.size - 3 ≤ (fasasDescriptorPool pool partitionCount image).images.length - count)
    (last : (fasasDescriptorPool pool partitionCount image).images.length - count < 11 * pool.size) :
    ¬ Restarts (fasasDescriptorPool pool partitionCount) FASASImage.mem count image := by
  rw [fasasDescriptorPool_length constructs] at first last
  rintro ⟨-, again, -, passes, -⟩
  have passes := (Program.error_of_run passes).1
  have inhabited : 0 < pool.size := Nat.lt_of_le_of_lt (Nat.zero_le _) constructs.partitions
  rw [fasasDescriptorPool_stopAfter constructs, if_neg (by omega), if_pos (by omega)] at passes
  have recovers := (constructsFASAS_of_passes passes).recovers
  have kept := recoverFASAS_final values constructs.recovers
  have started : 5 * 0 < count - (recoverFASAS pool image).images.length := by omega
  obtain ⟨address, -, unchanged⟩ := clearing_desc inhabited started
  obtain ⟨opType, privateAddress⟩ := unchanged (by omega)
  rw [kept.1] at opType privateAddress
  refine address_of_recoverFASAS inhabited ?_ ?_ recovers address
  · rw [opType]
    exact notNew
  · rw [privateAddress]
    exact used

/-- At every other stop the second run passes and leaves the words of the undisturbed run. -/
theorem fasasDescriptorPool_restarts {count : Nat} (values : image.ContractValues pool)
    (notCorrupted : ¬ (4 ≤ (fasasDescriptorPool pool partitionCount image).images.length - count ∧
      (fasasDescriptorPool pool partitionCount image).images.length - count + 3 ≤ 6 * pool.size))
    (notNull : ¬ ((image.desc 0).opType ≠ .zero ∧ (image.desc 0).privateAddress ≠ .null ∧
      11 * pool.size - 3 ≤ (fasasDescriptorPool pool partitionCount image).images.length - count ∧
      (fasasDescriptorPool pool partitionCount image).images.length - count < 11 * pool.size)) :
    Restarts (fasasDescriptorPool pool partitionCount) FASASImage.mem count image := by
  rw [fasasDescriptorPool_length constructs] at notCorrupted notNull
  have inhabited : 0 < pool.size := Nat.lt_of_le_of_lt (Nat.zero_le _) constructs.partitions
  have kept := recoverFASAS_keeps values constructs.recovers
  have finalKept := recoverFASAS_final values constructs.recovers
  have accepted := checkFASASMetadata_quiet constructs.accepted
  have quiet : ∀ {stopped : FASASImage},
      (fasasDescriptorPool pool partitionCount).stopAfter count image = stopped →
      stopped.metadata = image.metadata → Quiet (recoverFASAS pool) stopped →
      stopped.mem = ((recoverFASAS pool).final image).mem →
      Restarts (fasasDescriptorPool pool partitionCount) FASASImage.mem count image := by
    intro stopped halted metadata nothing same
    refine .of_quiet accepted constructs.recovers ?_ halted
      (checkFASASMetadata_quiet (metadata.trans constructs.accepted)) nothing same
    exact fun start => ⟨(rebuildFASAS_passes constructs.partitions start).1,
      (rebuildFASAS_passes constructs.partitions start).2.2⟩
  have stop := fasasDescriptorPool_stopAfter constructs count
  split at stop
  · rename_i early
    refine .of_stopped_recovery accepted constructs.recovers
      (rebuildFASAS_passes constructs.partitions _).1 (recoverFASAS_resumes values) ?_ early
    intro other stored
    exact checkFASASMetadata_quiet ((kept other stored).2.trans constructs.accepted)
  · split at stop
    · -- stopped while the descriptors are cleared
      refine quiet stop (storeAllFASAS_mem.2.trans finalKept.2) ?_ storeAllFASAS_mem.1
      generalize stored : count - (recoverFASAS pool image).images.length = stores
      have started : 5 * 0 < stores := by omega
      obtain ⟨-, cleared, unchanged⟩ := clearing_desc inhabited started
      by_cases late : 5 * 0 + 3 < stores
      · exact recoverFASAS_quiet_of_new (cleared late)
      · obtain ⟨opType, privateAddress⟩ := unchanged (Nat.le_of_not_lt late)
        rw [finalKept.1] at opType privateAddress
        by_cases new : (image.desc 0).opType = .zero
        · exact recoverFASAS_quiet_of_new (opType.trans new)
        · have free : (image.desc 0).privateAddress = .null := by
            by_contra used
            exact notNull ⟨new, used, by omega, by omega⟩
          have untouched : ∀ d, d < pool.size → d ≠ 0 →
              ((storeAllFASAS pool .zero FASASField.all).stopAfter stores
                ((recoverFASAS pool).final image)).desc d = image.desc d := by
            intro d inside later
            rw [uncleared_desc inside (by omega), finalKept.1]
          have marked := (recoverFASAS_loop values constructs.recovers new).1
          refine recoverFASAS_quiet ?_ ?_
          · intro d inside
            by_cases first : d = 0
            · rw [first, opType]
              exact new
            · rw [untouched d inside first]
              exact marked d inside
          · intro d inside
            by_cases first : d = 0
            · intro used
              rw [first, privateAddress] at used
              exact absurd free used
            · have settled := recoverFASAS_settled values constructs.recovers new inside
              unfold FASASImage.SettledDescriptor at settled ⊢
              rw [untouched d inside first, storeAllFASAS_mem.1]
              exact settled
    · -- stopped before the first mark or after the last one
      refine quiet stop ?_ ?_ ?_
      · rw [storeAllFASAS_mem.2, storeAllFASAS_final, storeAllFASAS_mem.2]
        exact finalKept.2
      · by_cases before : count - (recoverFASAS pool image).images.length - 5 * pool.size ≤ 2
        · refine recoverFASAS_quiet_of_new ?_
          rw [(stopped_fasas_desc inhabited).1, if_neg (by omega)]
        · refine recoverFASAS_quiet ?_ ?_
          · intro d inside
            rw [(stopped_fasas_desc inside).1, if_pos (by omega)]
            decide
          · intro d inside used
            exact absurd (stopped_fasas_desc inside).2 used
      · rw [storeAllFASAS_mem.1, storeAllFASAS_final, storeAllFASAS_mem.1]

end

/-- When a stopped constructor can be run again: if it was not stopped between the first and the last mark,
nor between the clearing of the address and of the mark of a first descriptor that was in use. -/
theorem fasasDescriptorPool_restarts_iff {partitionCount : Nat} {image : FASASImage}
    (values : image.ContractValues pool)
    (passes : (fasasDescriptorPool pool partitionCount image).error = none) (count : Nat) :
    Restarts (fasasDescriptorPool pool partitionCount) FASASImage.mem count image ↔
      ¬ (4 ≤ (fasasDescriptorPool pool partitionCount image).images.length - count ∧
        (fasasDescriptorPool pool partitionCount image).images.length - count + 3 ≤
          6 * pool.size) ∧
      ¬ ((image.desc 0).opType ≠ .zero ∧ (image.desc 0).privateAddress ≠ .null ∧
        11 * pool.size - 3 ≤
          (fasasDescriptorPool pool partitionCount image).images.length - count ∧
        (fasasDescriptorPool pool partitionCount image).images.length - count <
          11 * pool.size) := by
  have constructs := constructsFASAS_of_passes passes
  constructor
  · intro restarts
    refine ⟨fun marks => ?_, fun address => ?_⟩
    · exact fasasDescriptorPool_corrupted constructs marks.1 marks.2 restarts
    · exact fasasDescriptorPool_nullPointer constructs values address.1 address.2.1 address.2.2.1
        address.2.2.2 restarts
  · exact fun stopped => fasasDescriptorPool_restarts constructs values stopped.1 stopped.2

/-- A pool whose first descriptor was in use when the machine stopped. -/
def FASASImage.inUse : FASASImage where
  metadata := Pool.small.metadata
  mem _ := .plain 1
  desc d :=
    if d = 0 then { FASASDescriptor.initialized with
      address := 8, oldValue := .plain 1, newValue := .plain 2,
      privateAddress := .of 16 }
    else .initialized

/-- A clearing that was stopped after its first store, to the address of the first descriptor. -/
theorem fasasDescriptorPool_restarts_iff_inUse :
    ¬ Restarts (fasasDescriptorPool .small 2) FASASImage.mem 1 FASASImage.inUse := by
  have values : FASASImage.inUse.ContractValues .small := by
    intro d inside used e insideOther
    by_cases first : d = 0
    · subst first
      intro same
      have small : (1 : Nat) = 4096 + _ * e := same
      omega
    · simp [FASASImage.inUse, first] at used
      exact absurd rfl used
  have passes : (fasasDescriptorPool .small 2 FASASImage.inUse).error = none := by decide +kernel
  rw [fasasDescriptorPool_restarts_iff values passes]
  rintro ⟨-, notNull⟩
  exact notNull ⟨by decide, by decide, by decide +kernel, by decide +kernel⟩

end Pmwcas
