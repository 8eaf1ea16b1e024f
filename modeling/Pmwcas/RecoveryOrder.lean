/-
This file states recovery as a function on images. On every well-formed image the recovery loop ends
without a failed check, whatever the order in which it visits the descriptors and wherever it was
stopped before: every pointer becomes the value its descriptor decides, every other word some unfinished
descriptor lists loses its dirty bit, and nothing else changes.
-/

import Pmwcas.Library.Restart
import Pmwcas.RecoveryCorrectness

namespace Pmwcas

open Stores

variable {pool : Pool}

namespace Image

/-- What recovery of an image leaves, word by word. -/
structure RecoversTo (pool : Pool) (image final : Image) : Prop where
  wordPointer : ∀ address d i, image.Lists pool d i address → ¬ (image.mem address).IsValue →
    (image.mem address).rest = pool.wordAddress d i →
      final.mem address = ((image.desc d).words i).oldValue
  descriptorPointer : ∀ address d i, image.Lists pool d i address → ¬ (image.mem address).IsValue →
    (image.mem address).rest = pool.descriptorAddress d →
      final.mem address = if (image.desc d).status.code = .succeeded
        then ((image.desc d).words i).newValue else ((image.desc d).words i).oldValue
  listed : ∀ address, (image.mem address).IsValue → image.Listed pool address →
    final.mem address = (image.mem address).clearDirty
  unlisted : ∀ address, (image.mem address).IsValue → ¬ image.Listed pool address →
    final.mem address = image.mem address
  desc : final.desc = image.desc
  metadata : final.metadata = image.metadata

theorem WellFormed.recoversTo {image : Image} (ok : image.WellFormed pool) :
    image.RecoversTo pool { image with mem := image.recovered pool } where
  wordPointer address d i lists flagged points :=
    recoveredWord_condCAS address (ok.entry_lt lists) flagged points
  descriptorPointer address d i lists flagged points := by
    show image.recoveredWord pool address (image.mem address) = _
    rw [ok.recoveredWord_mwCAS flagged points lists, WordDescriptor.finalValue]
    by_cases succeeded : (image.desc d).status.code = .succeeded
    · rw [if_pos succeeded, if_pos (beq_iff_eq.mpr succeeded)]
    · rw [if_neg succeeded, if_neg (fun equal => succeeded (beq_iff_eq.mp equal))]
  listed address plain listed := by
    show image.recoveredWord pool address (image.mem address) = _
    rw [recoveredWord_value plain, if_pos listed]
  unlisted address plain unlisted := by
    show image.recoveredWord pool address (image.mem address) = _
    rw [recoveredWord_value plain, if_neg unlisted]
  desc := rfl
  metadata := rfl

/-- Recoveries that were stopped after some of their stores, one after the other, each with its own
order of visiting the descriptors. -/
def afterStops (pool : Pool) (image : Image) (stops : List (List Nat × Nat)) : Image :=
  stops.foldl (fun reached stop => (recoverLoop pool stop.1).stopAfter stop.2 reached) image

theorem Recovering.afterStops {start image : Image} (holds : Recovering pool start image)
    (stops : List (List Nat × Nat))
    (visits : ∀ stop ∈ stops, stop.1.Perm (List.range pool.size)) :
    Recovering pool start (image.afterStops pool stops) := by
  induction stops generalizing image with
  | nil => exact holds
  | cons stop stops inductionHypothesis =>
    have all : ∀ d, d ∈ stop.1 ↔ d < pool.size := fun d =>
      (visits stop List.mem_cons_self).mem_iff.trans List.mem_range
    refine inductionHypothesis ?_ fun later member => visits later (List.mem_cons_of_mem _ member)
    rcases (recoverLoop pool stop.1).stopAfter_mem stop.2 image with nothing | stored
    · show Recovering pool start ((recoverLoop pool stop.1).stopAfter stop.2 image)
      rw [nothing]
      exact holds
    · exact (recoverLoop_recovers start all image holds).1 _ stored

theorem ext_of_recovered {start final : Image} (mem : final.mem = start.recovered pool)
    (desc : final.desc = start.desc) (metadata : final.metadata = start.metadata) :
    final = { start with mem := start.recovered pool } := by
  cases final with
  | mk finalMetadata finalMem finalDesc =>
    cases mem
    cases desc
    cases metadata
    rfl

end Image

/-- Recovery of a well-formed image leaves one image: whatever the order of visiting the descriptors,
and however often it was stopped before. -/
theorem recovers_of_wellFormed {image : Image} (ok : image.WellFormed pool)
    (notNew : (image.desc 0).status ≠ .of .invalid) :
    ∃ final, image.RecoversTo pool final ∧ (recover pool).run image = .ok final ∧
      ∀ stops order, (∀ stop ∈ stops, stop.1.Perm (List.range pool.size)) →
        order.Perm (List.range pool.size) →
          (recoverLoop pool order).run (image.afterStops pool stops) = .ok final := by
  have ends : ∀ stops order, (∀ stop ∈ stops, stop.1.Perm (List.range pool.size)) →
      order.Perm (List.range pool.size) →
        (recoverLoop pool order).run (image.afterStops pool stops) =
          .ok { image with mem := image.recovered pool } := by
    intro stops order visits permuted
    have all : ∀ d, d ∈ order ↔ d < pool.size := fun d => permuted.mem_iff.trans List.mem_range
    have holds := (Image.Recovering.refl ok).afterStops stops visits
    obtain ⟨final, runs, mem, desc, metadata⟩ := (recoverLoop_recovers image all).run_eq holds
    rw [runs, Image.ext_of_recovered mem desc metadata]
  refine ⟨_, ok.recoversTo, ?_, ends⟩
  have started : recover pool image = recoverLoop pool (List.range pool.size) image := by
    unfold recover Program.branch
    rw [if_neg (fun equal => notNew (eq_of_beq equal))]
  have same : (recover pool).run image = (recoverLoop pool (List.range pool.size)).run image := by
    unfold Program.run Program.final
    rw [started]
  rw [same]
  exact ends [] _ (fun stop member => absurd member List.not_mem_nil) (List.Perm.refl _)

/-! ### An image -/

/-- Two unfinished descriptors that both list the word at 8: the first has succeeded and holds it, the
second is undecided and holds the word at 16 through its second entry. -/
def Image.contended : Image where
  metadata := Pool.small.metadata
  mem address :=
    if address = 8 then Pool.small.mwCASPtr 0 true
    else if address = 16 then Pool.small.condCASPtr 1 1
    else .plain 1
  desc d :=
    match d with
    | 0 => { status := ⟨.succeeded, true⟩, count := 1, words := fun _ =>
        { WordDescriptor.zero with address := 8, oldValue := .plain 1, newValue := .plain 2 } }
    | 1 => { status := ⟨.undecided, false⟩, count := 2, words := fun i =>
        { WordDescriptor.zero with address := 8 * (i + 1), oldValue := .plain 1, newValue := .plain 3 } }
    | _ => .initialized

theorem Image.Lists.of_contended {d i address : Nat}
    (lists : Image.contended.Lists .small d i address) :
    d = 0 ∧ i = 0 ∧ address = 8 ∨ d = 1 ∧ i < 2 ∧ address = 8 * (i + 1) := by
  obtain ⟨inside, unfinished, entry, here⟩ := lists
  match d with
  | 0 =>
    have first : i = 0 := Nat.lt_one_iff.mp entry
    exact Or.inl ⟨rfl, first, here.symm⟩
  | 1 => exact Or.inr ⟨rfl, entry, here.symm⟩
  | d + 2 => exact absurd unfinished StatusCode.not_inUse_finished

theorem Image.wellFormed_contended : Image.contended.WellFormed .small where
  valid d inside := by
    match d with
    | 0 => decide
    | 1 => decide
    | d + 2 =>
      show StatusCode.finished ≠ .invalid
      decide
  count_le d inside unfinished := by
    match d with
    | 0 => decide
    | 1 => decide
    | d + 2 => exact absurd unfinished StatusCode.not_inUse_finished
  distinct d i j address first second := by
    rcases first.of_contended with ⟨rfl, rfl, rfl⟩ | ⟨rfl, inside, rfl⟩
    · rcases second.of_contended with ⟨-, rfl, -⟩ | ⟨impossible, -, -⟩
      · rfl
      · cases impossible
    · rcases second.of_contended with ⟨impossible, -, -⟩ | ⟨-, -, same⟩
      · cases impossible
      · omega
  entries d i address lists := by
    rcases lists.of_contended with ⟨rfl, rfl, rfl⟩ | ⟨rfl, inside, rfl⟩
    · exact ⟨by decide, by decide, by decide⟩
    · have values : ((Word.plain 1).isCleanPtr = true ∧ Pool.small.Foreign (.plain 1)) ∧
          (Word.plain 3).isCleanPtr = true ∧ Pool.small.Foreign (.plain 3) := by
        decide
      exact ⟨Nat.mul_ne_zero (by decide) (Nat.succ_ne_zero i), values.1, values.2⟩
  words address := by
    by_cases eight : address = 8
    · subst eight
      exact .mwCAS (d := 0) (i := 0) (by decide) rfl ⟨by decide, by decide, by decide, rfl⟩
    · by_cases sixteen : address = 16
      · subst sixteen
        exact .condCAS (d := 1) (i := 1) (by decide) rfl ⟨by decide, by decide, by decide, rfl⟩ (by decide)
      · have plain : Image.contended.mem address = .plain 1 := by
          simp [Image.contended, eight, sixteen]
        rw [plain]
        exact .value (by decide) (by decide)

theorem recovers_of_wellFormed_contended :
    Image.contended.WellFormed .small ∧
      ∃ final, Image.contended.RecoversTo .small final ∧
        final.mem 8 = .plain 2 ∧ final.mem 16 = .plain 1 ∧
        (recoverLoop .small [1, 0, 3, 2]).run Image.contended = .ok final ∧
        (recoverLoop .small [0, 1, 2, 3]).run
          ((recoverLoop .small [1, 0, 3, 2]).stopAfter 2 Image.contended) = .ok final := by
  obtain ⟨final, becomes, -, ends⟩ := recovers_of_wellFormed Image.wellFormed_contended (by decide)
  refine ⟨Image.wellFormed_contended, final, becomes, ?_, ?_, ?_, ?_⟩
  · exact becomes.descriptorPointer 8 0 0 ⟨by decide, by decide, by decide, rfl⟩ (by decide) rfl
  · exact becomes.wordPointer 16 1 1 ⟨by decide, by decide, by decide, rfl⟩ (by decide) rfl
  · exact ends [] [1, 0, 3, 2] (by simp) (by decide)
  · exact ends [([1, 0, 3, 2], 2)] [0, 1, 2, 3] (by simp; decide) (by decide)

end Pmwcas
