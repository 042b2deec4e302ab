/-
Batches of pairs of samples, each with a weight of its own. Merging their moments in any order and with any
bracketing gives the moments of all samples around the common weighted means, so merging what comes of batches
is commutative and associative, and moments without a sample are its identity.
-/
import ShotTally.Proofs.Statistics.Bracketing
import ShotTally.Proofs.Statistics.Pooling
import ShotTally.Proofs.Statistics.Samples

namespace ShotTally

open Exact (Weighted Positive weightOf)
open MomentSums (WeightedPair pooled merge zeros)

/-- Arrays whose rows are paired, or one array whose rows are paired with themselves, a filter for either side,
and the weight that every pair has. -/
structure Batch where
  first : Tensor ℚ
  second : Option (Tensor ℚ)
  filter1 : SampleFilter
  filter2 : SampleFilter
  weight : ℚ

namespace Batch

/-- The moments of a batch. -/
def sums (b : Batch) : Outcome (MomentSums ℚ) := MomentSums.accumulate b.first b.second b.filter1 b.filter2 b.weight

/-- The pairs of samples of a batch, each with the weight of the batch. -/
def samples (b : Batch) : List WeightedPair :=
  (MomentSums.samplePairs b.first b.second b.filter1 b.filter2).map (Weighted.mk b.weight)

/-- The batch has moments, for samples of these lengths and with a positive weight; it may be empty. -/
structure Sound (n k : Nat) (b : Batch) : Prop where
  defined : MomentSums.Defined b.first b.second b.filter1 b.filter2
  length1 : b.filter1.outputLength b.first.rowWidth = n
  length2 : b.filter2.outputLength (b.second.getD b.first).rowWidth = k
  weight : 0 < b.weight

variable {n k : Nat} {b : Batch} {batches : List Batch}

theorem length_samples (b : Batch) : b.samples.length = b.first.rowCount := by
  simp [samples, MomentSums.samplePairs]

theorem Sound.positive (h : b.Sound n k) : Positive b.samples := Exact.positive_same h.weight _

theorem Sound.sums_eq (h : b.Sound n k) : b.sums = .ok (pooled b.samples n k) := by
  rw [sums, h.defined.accumulate_eq, h.length1, h.length2, samples, MomentSums.pooled_same h.weight.ne']

theorem positive_flatMap (h : ∀ b ∈ batches, b.Sound n k) : Positive (batches.flatMap samples) := by
  intro s hs
  obtain ⟨b, hb, hs⟩ := List.mem_flatMap.1 hs
  exact (h b hb).positive s hs

/-- Every sample counts with the weight of its batch. -/
theorem weightOf_samples (batches : List Batch) :
    weightOf (batches.flatMap samples) = (batches.map fun b : Batch => b.weight * b.first.rowCount).sum := by
  induction batches with
  | nil => rfl
  | cons b batches ih =>
    rw [List.flatMap_cons, Exact.weightOf_append, ih, List.map_cons, List.sum_cons, samples, Exact.weightOf_same]
    simp [MomentSums.samplePairs]

/-- Batches that are merged have the moments of all their samples. -/
theorem hasTotals (n k : Nat) :
    HasTotals sums merge (Sound n k) fun batches => pooled (batches.flatMap samples) n k where
  value b hb := by rw [hb.sums_eq, List.flatMap_singleton]
  combine l m hl hm := by
    rw [List.flatMap_append]
    exact (MomentSums.merge_pooled (positive_flatMap hl) (positive_flatMap hm)).2 ⟨⟨rfl, rfl⟩, rfl⟩
  perm l m h := MomentSums.pooled_perm (h.flatMap_right samples) n k

/-- What comes of batches and has no weight is zero. -/
theorem eq_zeros_of_count {e : MomentSums ℚ} (he : Produced sums merge (Sound n k) e) (hcount : e.count = 0) :
    e = zeros n k := by
  obtain ⟨l, hl, rfl⟩ := (hasTotals n k).exists_items he
  have hnil : l.flatMap samples = [] := (positive_flatMap hl).weightOf_eq_zero.1 hcount
  rw [hnil, MomentSums.pooled_nil]

/-- Zeros are the identity of what comes of batches. -/
theorem merge_zeros {a : MomentSums ℚ} (ha : Produced sums merge (Sound n k) a) :
    a.merge (zeros n k) = .ok a ∧ (zeros n k).merge a = .ok a := by
  obtain ⟨l, hl, rfl⟩ := (hasTotals n k).exists_items ha
  have hnone : Positive ([] : List WeightedPair) := fun s hs => absurd hs List.not_mem_nil
  rw [← MomentSums.pooled_nil]
  constructor
  · refine (MomentSums.merge_pooled (positive_flatMap hl) hnone).2 ⟨⟨rfl, rfl⟩, ?_⟩
    rw [List.append_nil]
  · exact (MomentSums.merge_pooled hnone (positive_flatMap hl)).2 ⟨⟨rfl, rfl⟩, rfl⟩

/-- For every list of batches with samples of these lengths, empty ones among them, and every order and every
bracketing of merging their moments: there are moments, those of all samples, each with the weight of its batch,
around the weighted means of all of them, and their count is the weight of all rows. Merging what batches and
merging produce is commutative and associative, and whatever of it has no weight, such as the moments of a batch
without a row, is its identity. -/
theorem merge_any_way (n k : Nat) :
    (∀ batches : List Batch, (∀ b ∈ batches, b.Sound n k) → ∀ t : Bracketing Batch, t.items.Perm batches →
      t.result sums merge = .ok {
        covarianceSum := (List.range n).map fun i => (List.range k).map fun j =>
          Exact.weightedComoment (fun p => p.1.getD i 0) (fun p => p.2.getD j 0) (batches.flatMap samples)
        sum1 := (List.range n).map fun i => Exact.weightedSum (fun p => p.1.getD i 0) (batches.flatMap samples)
        sum2 := (List.range k).map fun j => Exact.weightedSum (fun p => p.2.getD j 0) (batches.flatMap samples)
        count := (batches.map fun b : Batch => b.weight * b.first.rowCount).sum }) ∧
    (∀ a b, Produced sums merge (Sound n k) a → Produced sums merge (Sound n k) b →
      ∃ ab, a.merge b = .ok ab ∧ b.merge a = .ok ab) ∧
    (∀ a b c, Produced sums merge (Sound n k) a → Produced sums merge (Sound n k) b →
      Produced sums merge (Sound n k) c →
      ∃ ab bc abc, a.merge b = .ok ab ∧ b.merge c = .ok bc ∧ ab.merge c = .ok abc ∧ a.merge bc = .ok abc) ∧
    (∀ b : Batch, b.Sound n k → b.first.rowCount = 0 → b.sums = .ok (zeros n k)) ∧
    ∀ a e, Produced sums merge (Sound n k) a → (e = zeros n k ∨ Produced sums merge (Sound n k) e ∧ e.count = 0) →
      a.merge e = .ok a ∧ e.merge a = .ok a := by
  refine ⟨fun batches h t hperm => ?_, fun a b ha hb => (hasTotals n k).comm ha hb,
    fun a b c ha hb hc => (hasTotals n k).assoc ha hb hc, fun b hb hrows => ?_, fun a e ha he => ?_⟩
  · rw [(hasTotals n k).result_eq_of_perm h hperm, pooled, weightOf_samples]
  · rw [hb.sums_eq, List.length_eq_zero_iff.1 ((length_samples b).trans hrows), MomentSums.pooled_nil]
  · obtain rfl : e = zeros n k := he.elim id fun he => eq_zeros_of_count he.1 he.2
    exact merge_zeros ha

/-- A row of weight two, then a batch without a row and two rows of weight one half: the mean of all is sixteen
thirds. -/
theorem merge_three_batches :
    (Bracketing.both (.item ⟨⟨[1, 1], [7]⟩, none, .identity, .identity, 2⟩)
      (.both (.item ⟨⟨[0, 1], []⟩, none, .identity, .identity, 5⟩)
        (.item ⟨⟨[2, 1], [1, 3]⟩, none, .identity, .identity, 1 / 2⟩))).result sums merge =
      .ok ⟨[[53 / 3]], [16], [16], 3⟩ := by
  have hsound : ∀ (t : Tensor ℚ) (w : ℚ), t.WellFormed → t.rowWidth = 1 → 0 < w →
      Sound 1 1 ⟨t, none, .identity, .identity, w⟩ := fun t w ht hwidth hw =>
    ⟨⟨ht.readable, ht.readable, rfl, trivial, trivial⟩, hwidth, hwidth, hw⟩
  refine ((merge_any_way 1 1).1 [_, _, _] ?_ _ (List.Perm.refl _)).trans (by decide +kernel)
  simp only [List.forall_mem_cons, List.not_mem_nil, false_imp_iff, implies_true, and_true]
  exact ⟨hsound _ 2 rfl rfl two_pos,
    hsound _ 5 rfl rfl (by decide +kernel), hsound _ (1 / 2) rfl rfl (by decide +kernel)⟩

end Batch
end ShotTally
