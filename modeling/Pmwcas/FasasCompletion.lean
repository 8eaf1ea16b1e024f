/-
This file is about what `FASASDescriptorPool::recover` does with the operations it finds: those
that have reached their final status are to be completed, the others are to be undone.

Operations are undone as they should be. But `getStatus` returns the flag in its place in the word
and `recoverForFASAS` compares it with `SuccStatus`, which is one, so that an operation with the
flag is neither completed nor undone: it has to have its whole effect already.
-/

import Pmwcas.FasasRestarting

namespace Pmwcas

open Stores

variable {pool : Pool} {shared : Nat → Prop} {start image : FASASImage} {d e address : Nat}

/-! ### Images and their recovery -/

namespace FASASImage

/-- The word is a pointer to descriptor `d`. -/
def Points (pool : Pool) (image : FASASImage) (address d : Nat) : Prop :=
  (image.mem address).mwcas = true ∧ (image.mem address).rest = pool.fasasAddress d

/-- The descriptor is of an operation in progress. -/
def InProgress (image : FASASImage) (d : Nat) : Prop := (image.desc d).privateAddress ≠ .null

/-- The operation has succeeded, and its private word may lack its value. -/
def LacksPrivateValue (image : FASASImage) (d : Nat) : Prop :=
  image.InProgress d ∧ (image.desc d).privateAddress.statusFlg = true ∧
    (image.desc d).privateAddress.isPrivateValueSetFlg = false

/-- A pool with constructed descriptors, in which pointers to descriptors are in the words these
list, and no plain value looks like one. -/
structure Consistent (pool : Pool) (shared : Nat → Prop) (image : FASASImage) : Prop where
  marked : ∀ d, d < pool.size → (image.desc d).opType ≠ .zero
  listed : ∀ d, d < pool.size → image.InProgress d → shared (image.desc d).address
  separate : ∀ d, d < pool.size → image.InProgress d →
    ¬ shared (image.desc d).privateAddress.getPrivateAddress
  pointers : ∀ address, shared address → (image.mem address).mwcas = true →
    ∃ d, d < pool.size ∧ image.Points pool address d ∧ (image.desc d).address = address
  plain : ∀ address, shared address → (image.mem address).mwcas = false →
    ∀ d, d < pool.size → (image.mem address).rest ≠ pool.fasasAddress d
  values : image.ContractValues pool

/-- Every operation in progress is completed if it has succeeded and undone if it has not. -/
structure Restored (pool : Pool) (shared : Nat → Prop) (start final : FASASImage) : Prop where
  completed : ∀ d, d < pool.size → start.InProgress d →
    (start.desc d).privateAddress.statusFlg = true → ∀ address, shared address →
    start.Points pool address d → final.mem address = (start.desc d).newValue
  privateValue : ∀ d, d < pool.size → start.LacksPrivateValue d →
    final.mem (start.desc d).privateAddress.getPrivateAddress = (start.desc d).privateValue
  undone : ∀ d, d < pool.size → start.InProgress d →
    (start.desc d).privateAddress.statusFlg = false → ∀ address, shared address →
    start.Points pool address d → final.mem address = (start.desc d).oldValue
  unchanged : ∀ address,
    (∀ d, d < pool.size → start.InProgress d → shared address → ¬ start.Points pool address d) →
    (∀ d, d < pool.size → start.LacksPrivateValue d →
      address ≠ (start.desc d).privateAddress.getPrivateAddress) →
    final.mem address = start.mem address
  descriptors : start.SameDescriptors final
  released : ∀ address, shared address → ∀ d, d < pool.size → (start.desc d).address = address →
    ¬ final.Points pool address d

/-- The descriptors in progress list a word, and the operations that have succeeded have their
effect already. -/
structure NothingToComplete (pool : Pool) (shared : Nat → Prop) (image : FASASImage) : Prop where
  lists : ∀ d, d < pool.size → image.InProgress d → (image.desc d).address ≠ 0
  succeeded : ∀ d, d < pool.size → image.InProgress d →
    (image.desc d).privateAddress.statusFlg = true → ∀ address, shared address →
    ¬ image.Points pool address d
  privateValue : ∀ d, d < pool.size → image.LacksPrivateValue d →
    image.mem (image.desc d).privateAddress.getPrivateAddress = (image.desc d).privateValue
  unused : ∀ d, d < pool.size → ¬ image.InProgress d → ∀ address, shared address →
    ¬ image.Points pool address d

/-- The operation has not succeeded and its word points to it. -/
def RollsBack (pool : Pool) (start : FASASImage) (d : Nat) : Prop :=
  start.InProgress d ∧ (start.desc d).privateAddress.statusFlg = false ∧
    (start.mem (start.desc d).address).rest = pool.fasasAddress d

/-- The listed descriptors have been looked at: the words of those that roll back have their old
values, and no other word has changed. -/
structure RolledBack (pool : Pool) (start : FASASImage) (looked : List Nat) (image : FASASImage) :
    Prop where
  descriptors : start.SameDescriptors image
  undone : ∀ d ∈ looked, start.RollsBack pool d →
    image.mem (start.desc d).address = (start.desc d).oldValue
  unchanged : ∀ address,
    (∀ d ∈ looked, start.RollsBack pool d → (start.desc d).address ≠ address) →
    image.mem address = start.mem address

namespace RollsBack

/-- A word points to one descriptor only. -/
theorem unique (one : start.RollsBack pool d) (other : start.RollsBack pool e)
    (same : (start.desc d).address = (start.desc e).address) : d = e := by
  refine pool.fasasAddress_injective ?_
  rw [← one.2.2, ← other.2.2, same]

end RollsBack

namespace RolledBack

/-- A word either still has its contents, or it has the old value of a looked at descriptor. -/
theorem word {looked : List Nat} (rolled : RolledBack pool start looked image) (address : Nat) :
    image.mem address = start.mem address ∨ ∃ d ∈ looked, start.RollsBack pool d ∧
      (start.desc d).address = address ∧ image.mem address = (start.desc d).oldValue := by
  by_cases changed : ∃ d ∈ looked, start.RollsBack pool d ∧ (start.desc d).address = address
  · obtain ⟨d, member, rolls, rfl⟩ := changed
    exact .inr ⟨d, member, rolls, rfl, rolled.undone d member rolls⟩
  · refine .inl (rolled.unchanged address ?_)
    exact fun d member rolls same => changed ⟨d, member, rolls, same⟩

end RolledBack

end FASASImage

open FASASImage

/-! ### The loop -/

section

variable (values : start.ContractValues pool)

include values

/-- One pass through the loop. -/
theorem rollBackFASAS_rolledBack {looked : List Nat} (inside : ∀ e ∈ looked, e < pool.size)
    (here : d < pool.size) (lists : start.InProgress d → (start.desc d).address ≠ 0) :
    Triple (RolledBack pool start looked) (rollBackFASAS pool d)
      (RolledBack pool start (looked ++ [d])) fun _ => True := by
  have skip : ∀ {image : FASASImage}, RolledBack pool start looked image →
      (start.RollsBack pool d → image.mem (start.desc d).address = (start.desc d).oldValue) →
      RolledBack pool start (looked ++ [d]) image := by
    intro image rolled settled
    refine ⟨rolled.descriptors, ?_, ?_⟩
    · intro e member rolls
      rcases List.mem_append.mp member with early | now
      · exact rolled.undone e early rolls
      · cases List.mem_singleton.mp now
        exact settled rolls
    · intro address others
      exact rolled.unchanged address fun e member => others e (List.mem_append_left _ member)
  refine .branch ?_ (.andThen (.check ?_) (.branch (.store ?_) ?_))
  · refine .pass ?_
    rintro image ⟨rolled, null⟩
    refine skip rolled fun rolls => absurd ?_ rolls.1
    rw [← rolled.descriptors.1]
    exact beq_iff_eq.mp null
  · rintro image ⟨rolled, used⟩
    rw [rolled.descriptors.1] at used ⊢
    exact bne_iff_ne.mpr (lists (beq_eq_false_iff_ne.mp used))
  · rintro image ⟨⟨rolled, used⟩, points⟩
    have points := of_decide_eq_true points
    rw [FASASImage.target, rolled.descriptors.1] at points
    rw [rolled.descriptors.1] at used
    -- no descriptor before this one has changed the word, as its old value would be there
    have others : ∀ e ∈ looked, start.RollsBack pool e →
        (start.desc e).address ≠ (start.desc d).address := by
      intro e member rolls same
      refine values e (inside e member) rolls.1 d here ?_
      rw [← rolled.undone e member rolls, same]
      exact points.2
    refine ⟨⟨rolled.descriptors, ?_, ?_⟩, trivial⟩
    · intro e member rolls
      show Function.update image.mem (image.desc d).address (image.desc d).oldValue _ = _
      rw [rolled.descriptors.1]
      rcases List.mem_append.mp member with early | now
      · rw [Function.update_of_ne (others e early rolls)]
        exact rolled.undone e early rolls
      · cases List.mem_singleton.mp now
        rw [Function.update_self]
    · intro address different
      show Function.update image.mem (image.desc d).address (image.desc d).oldValue _ = _
      have rolls : start.RollsBack pool d := by
        refine ⟨beq_eq_false_iff_ne.mp used, points.1, ?_⟩
        rw [← rolled.unchanged _ others]
        exact points.2
      have elsewhere := different d (List.mem_append_right _ (List.mem_singleton.mpr rfl)) rolls
      rw [rolled.descriptors.1, Function.update_of_ne (Ne.symm elsewhere)]
      exact rolled.unchanged address fun e member => different e (List.mem_append_left _ member)
  · refine .pass ?_
    rintro image ⟨⟨rolled, -⟩, differs⟩
    have differs := of_decide_eq_false differs
    rw [FASASImage.target, rolled.descriptors.1] at differs
    refine skip rolled fun rolls => ?_
    rcases rolled.word (start.desc d).address with same | ⟨e, -, other, same, value⟩
    · refine absurd ⟨rolls.2.1, ?_⟩ differs
      rw [same]
      exact rolls.2.2
    · cases other.unique rolls same
      exact value

end

section

variable (consistent : image.Consistent pool shared)

include consistent

/-- The final image, if every descriptor in progress lists a word. -/
theorem recoverFASAS_rolledBack
    (lists : ∀ d, d < pool.size → image.InProgress d → (image.desc d).address ≠ 0) :
    ∃ final, (recoverFASAS pool).run image = .ok final ∧
      RolledBack pool image (List.range pool.size) final := by
  have initially : RolledBack pool image [] image :=
    ⟨⟨rfl, rfl⟩, fun d member => absurd member List.not_mem_nil, fun _ _ => rfl⟩
  have loop : Triple (RolledBack pool image [])
      (Program.forEach (rollBackFASAS pool) (List.range pool.size))
      (RolledBack pool image (List.range pool.size)) fun _ => True := by
    refine .forEach (RolledBack pool image) _ ?_
    intro looked d rest split
    have inside : ∀ e ∈ looked ++ d :: rest, e < pool.size := by
      rw [← split]
      exact fun e member => List.mem_range.mp member
    have here := inside d (List.mem_append_right _ List.mem_cons_self)
    exact rollBackFASAS_rolledBack consistent.values
      (fun e member => inside e (List.mem_append_left _ member)) here (lists d here)
  have program : recoverFASAS pool image =
      Program.forEach (rollBackFASAS pool) (List.range pool.size) image := by
    by_cases empty : pool.size = 0
    · rw [empty]
      unfold recoverFASAS Program.branch
      rw [empty]
      split
      · rfl
      · rfl
    · rw [recoverFASAS_of_marked (consistent.marked 0 (Nat.pos_of_ne_zero empty))]
      refine recoverFASASLoop_eq consistent.values ?_ ⟨rfl, rfl⟩
      intro d member
      have inside := List.mem_range.mp member
      exact ⟨inside, consistent.marked d inside⟩
  unfold Program.run Program.final
  rw [program]
  exact loop.run_eq initially

/-- A recovery that passes has found the word of every descriptor in progress. -/
theorem lists_of_recoverFASAS (passes : (recoverFASAS pool image).error = none) (here : d < pool.size)
    (inProgress : image.InProgress d) : (image.desc d).address ≠ 0 := by
  have notNew := consistent.marked 0 (Nat.lt_of_le_of_lt (Nat.zero_le _) here)
  exact (recoverFASAS_settled consistent.values passes notNew here inProgress).1

/-- A shared word points to the descriptor whose address it has, which lists it. -/
theorem FASASImage.Consistent.points (isShared : shared address) (here : d < pool.size)
    (same : (image.mem address).rest = pool.fasasAddress d) :
    image.Points pool address d ∧ (image.desc d).address = address := by
  cases flag : (image.mem address).mwcas with
  | false => exact absurd same (consistent.plain address isShared flag d here)
  | true =>
    obtain ⟨e, -, points, listed⟩ := consistent.pointers address isShared flag
    cases pool.fasasAddress_injective (points.2.symm.trans same)
    exact ⟨points, listed⟩

/-- The words that roll back are shared words that point to their descriptors. -/
theorem FASASImage.Consistent.points_of_rollsBack (here : d < pool.size)
    (rolls : image.RollsBack pool d) :
    shared (image.desc d).address ∧ image.Points pool (image.desc d).address d := by
  have isShared := consistent.listed d here rolls.1
  exact ⟨isShared, (consistent.points isShared here rolls.2.2).1⟩

variable {final : FASASImage} (rolled : RolledBack pool image (List.range pool.size) final)

include rolled

theorem FASASImage.RolledBack.private_eq (here : d < pool.size) (inProgress : image.InProgress d) :
    final.mem (image.desc d).privateAddress.getPrivateAddress =
      image.mem (image.desc d).privateAddress.getPrivateAddress := by
  refine rolled.unchanged _ ?_
  intro e member rolls same
  refine consistent.separate d here inProgress ?_
  rw [← same]
  exact consistent.listed e (List.mem_range.mp member) rolls.1

omit consistent in
/-- A word that points to a descriptor that does not roll back keeps doing so. -/
theorem FASASImage.RolledBack.points_of_not_rollsBack (points : image.Points pool address d)
    (stays : ¬ image.RollsBack pool d) :
    final.Points pool address d := by
  have same : final.mem address = image.mem address := by
    refine rolled.unchanged address ?_
    intro e member rolls listed
    refine stays ?_
    have address := rolls.2.2
    rw [listed, points.2] at address
    cases pool.fasasAddress_injective address
    exact rolls
  unfold FASASImage.Points
  rw [same]
  exact points

theorem restored_of_rolledBack (nothing : image.NothingToComplete pool shared) :
    image.Restored pool shared final where
  completed d here inProgress succeeded address isShared points :=
    absurd points (nothing.succeeded d here inProgress succeeded address isShared)
  privateValue d here lacks := by
    rw [rolled.private_eq consistent here lacks.1]
    exact nothing.privateValue d here lacks
  undone d here inProgress failed address isShared points := by
    obtain ⟨-, rfl⟩ := consistent.points isShared here points.2
    exact rolled.undone d (List.mem_range.mpr here) ⟨inProgress, failed, points.2⟩
  unchanged address notPointing _ := by
    refine rolled.unchanged address ?_
    rintro d member rolls rfl
    have here := List.mem_range.mp member
    obtain ⟨isShared, points⟩ := consistent.points_of_rollsBack here rolls
    exact notPointing d here rolls.1 isShared points
  descriptors := rolled.descriptors
  released address isShared d here listed points := by
    rcases rolled.word address with same | ⟨e, member, rolls, -, value⟩
    · rw [FASASImage.Points, same] at points
      by_cases inProgress : image.InProgress d
      · cases status : (image.desc d).privateAddress.statusFlg with
        | true => exact nothing.succeeded d here inProgress status address isShared points
        | false =>
          have rolls : image.RollsBack pool d := by
            refine ⟨inProgress, status, ?_⟩
            rw [listed]
            exact points.2
          have value := rolled.undone d (List.mem_range.mpr here) rolls
          rw [listed, same] at value
          refine consistent.values d here inProgress d here ?_
          rw [← value]
          exact points.2
      · exact nothing.unused d here inProgress address isShared points
    · refine consistent.values e (List.mem_range.mp member) rolls.1 d here ?_
      rw [← value]
      exact points.2

theorem nothingToComplete_of_restored
    (lists : ∀ d, d < pool.size → image.InProgress d → (image.desc d).address ≠ 0)
    (restored : image.Restored pool shared final) : image.NothingToComplete pool shared := by
  have stuck : ∀ d, d < pool.size → ¬ image.RollsBack pool d → ∀ address, shared address →
      ¬ image.Points pool address d := by
    intro d here stays address isShared points
    have listed := (consistent.points isShared here points.2).2
    exact restored.released address isShared d here listed
      (rolled.points_of_not_rollsBack points stays)
  refine ⟨lists, ?_, ?_, ?_⟩
  · intro d here inProgress succeeded
    refine stuck d here ?_
    rintro ⟨-, failed, -⟩
    rw [succeeded] at failed
    cases failed
  · intro d here lacks
    rw [← rolled.private_eq consistent here lacks.1]
    exact restored.privateValue d here lacks
  · intro d here unused
    exact stuck d here fun rolls => unused rolls.1

end

theorem nothingToComplete_of_run (consistent : image.Consistent pool shared) {final : FASASImage}
    (passes : (recoverFASAS pool).run image = .ok final) (restored : image.Restored pool shared final) :
    image.NothingToComplete pool shared := by
  have lists : ∀ d, d < pool.size → image.InProgress d → (image.desc d).address ≠ 0 :=
    fun d here => lists_of_recoverFASAS consistent (Program.error_of_run passes).1 here
  obtain ⟨reached, passesToo, rolled⟩ := recoverFASAS_rolledBack consistent lists
  cases passes.symm.trans passesToo
  exact nothingToComplete_of_restored consistent rolled lists restored

/-- Recovery completes or undoes every operation if and only if there is none to complete. -/
theorem recoverFASAS_restored_iff (consistent : image.Consistent pool shared) :
    (∃ final, (recoverFASAS pool).run image = .ok final ∧ image.Restored pool shared final) ↔
      image.NothingToComplete pool shared := by
  constructor
  · rintro ⟨final, passes, restored⟩
    exact nothingToComplete_of_run consistent passes restored
  · intro nothing
    obtain ⟨final, passes, rolled⟩ := recoverFASAS_rolledBack consistent nothing.lists
    exact ⟨final, passes, restored_of_rolledBack consistent rolled nothing⟩

/-! ### Two images -/

/-- One operation in progress, whose word points to its descriptor. -/
def stoppedFASAS (statusFlg : Bool) : FASASImage where
  metadata := Pool.small.metadata
  mem := Function.update (fun _ => .plain 0) 100 (Pool.small.fasasPtr 0)
  desc := Function.update (fun _ => .initialized) 0 {
    address := 100
    oldValue := .plain 5
    newValue := .plain 7
    opType := .fasas
    privateAddress := ⟨200, false, statusFlg, false⟩ }

theorem stoppedFASAS_desc (statusFlg : Bool) (later : d ≠ 0) :
    (stoppedFASAS statusFlg).desc d = .initialized := by
  simp only [stoppedFASAS, Function.update_of_ne later]

theorem stoppedFASAS_inProgress {statusFlg : Bool} (inProgress : (stoppedFASAS statusFlg).InProgress d) :
    d = 0 := by
  by_contra later
  refine inProgress ?_
  rw [stoppedFASAS_desc statusFlg later]
  rfl

theorem stoppedFASAS_consistent (statusFlg : Bool) :
    (stoppedFASAS statusFlg).Consistent Pool.small (· = 100) where
  marked d _ := by
    by_cases first : d = 0
    · rw [first]
      exact fun impossible => nomatch impossible
    · rw [stoppedFASAS_desc statusFlg first]
      exact fun impossible => nomatch impossible
  listed d _ inProgress := by
    cases stoppedFASAS_inProgress inProgress
    rfl
  separate d _ inProgress := by
    cases stoppedFASAS_inProgress inProgress
    show (200 : Nat) ≠ 100
    decide
  pointers address isShared _ := by
    cases isShared
    exact ⟨0, by decide, ⟨rfl, rfl⟩, rfl⟩
  plain address isShared flag := by
    cases isShared
    cases flag
  values d _ inProgress e _ same := by
    cases stoppedFASAS_inProgress inProgress
    have same : 5 = 4096 + 64 * e := same
    omega

/-- Recovery undoes an operation that has not succeeded. -/
theorem recoverFASAS_restored_iff_undone : ∃ final,
    (recoverFASAS Pool.small).run (stoppedFASAS false) = .ok final ∧
      (stoppedFASAS false).Restored Pool.small (· = 100) final := by
  refine (recoverFASAS_restored_iff (stoppedFASAS_consistent false)).mpr ⟨?_, ?_, ?_, ?_⟩
  · intro d _ inProgress
    cases stoppedFASAS_inProgress inProgress
    show (100 : Nat) ≠ 0
    decide
  · intro d _ inProgress succeeded
    cases stoppedFASAS_inProgress inProgress
    cases succeeded
  · rintro d _ ⟨inProgress, succeeded, -⟩
    cases stoppedFASAS_inProgress inProgress
    cases succeeded
  · intro d _ unused address isShared points
    cases isShared
    have same : 4096 = 4096 + 64 * d := points.2
    have first : d = 0 := by omega
    cases first
    exact unused fun impossible => nomatch impossible

/-- Recovery leaves the pointer of an operation that has succeeded where it is. -/
theorem exists_not_restored : ∃ (pool : Pool) (shared : Nat → Prop) (image : FASASImage),
    image.Consistent pool shared ∧
    ¬ ∃ final, (recoverFASAS pool).run image = .ok final ∧ image.Restored pool shared final := by
  refine ⟨Pool.small, (· = 100), stoppedFASAS true, stoppedFASAS_consistent true, ?_⟩
  rintro ⟨final, passes, restored⟩
  have nothing := nothingToComplete_of_run (stoppedFASAS_consistent true) passes restored
  refine nothing.succeeded 0 (by decide) ?_ rfl 100 rfl ⟨rfl, rfl⟩
  exact fun impossible => nomatch impossible

end Pmwcas
