/-
Moments of batches put together. Every pair of samples counts with the weight of its batch, and merging two
batches gives the moments of both together around the common weighted means, whichever of them is empty.
-/
import ShotTally.Proofs.Statistics.TwoPass

namespace ShotTally

open Exact (Weighted Positive weightOf weightedSum weightedMean weightedComoment)

namespace MomentSums

/-- A pair of samples that counts with a weight. -/
abbrev WeightedPair := Weighted (List ℚ × List ℚ)

/-- The moments of weighted pairs of samples of these lengths: their weight together, the weighted sums of the
entries, and for each two positions the weighted sum of the products of the deviations from the weighted means. -/
def pooled (samples : List WeightedPair) (n k : Nat) : MomentSums ℚ where
  covarianceSum := (List.range n).map fun i => (List.range k).map fun j =>
    weightedComoment (fun p => p.1.getD i 0) (fun p => p.2.getD j 0) samples
  sum1 := (List.range n).map fun i => weightedSum (fun p => p.1.getD i 0) samples
  sum2 := (List.range k).map fun j => weightedSum (fun p => p.2.getD j 0) samples
  count := weightOf samples

variable {n k n' k' : Nat} {samples samples' : List WeightedPair}

@[simp] theorem dims_pooled (samples : List WeightedPair) (n k : Nat) : (pooled samples n k).dims = (n, k) := by
  simp [dims, pooled]

/-- Without a pair of samples there are zeros. -/
theorem pooled_nil (n k : Nat) : pooled [] n k = zeros n k := by
  unfold zeros
  rw [zeroMatrix_eq, zeroVector_eq, zeroVector_eq]
  rfl

/-- The order of the pairs does not matter. -/
theorem pooled_perm (h : samples.Perm samples') (n k : Nat) : pooled samples n k = pooled samples' n k := by
  unfold pooled
  simp only [Exact.weightedComoment_perm _ _ h, Exact.weightedSum_perm _ h, Exact.weightOf_perm h]

/-! ## One weight for all -/

/-- With one weight for all pairs, the moments are those of two passes with that weight. -/
theorem pooled_same {w : ℚ} (hw : w ≠ 0) (pairs : List (List ℚ × List ℚ)) (n k : Nat) :
    pooled (pairs.map (Weighted.mk w)) n k = (twoPass pairs n k).weighted w := by
  unfold pooled weighted twoPass firsts seconds entries
  simp only [Exact.weightedComoment_same hw, Exact.weightedSum_same, Exact.weightOf_same, scaleMatrix_range,
    List.map_map,
    Function.comp_def, mul_comm w]

theorem twoPass_eq_pooled (pairs : List (List ℚ × List ℚ)) (n k : Nat) :
    twoPass pairs n k = pooled (pairs.map (Weighted.mk 1)) n k := by
  rw [pooled_same one_ne_zero, weighted_one]

/-! ## Means -/

theorem mean_range (samples : List WeightedPair) (n : Nat) (f : Nat → List ℚ × List ℚ → ℚ) :
    mean ((List.range n).map fun i => weightedSum (f i) samples) (weightOf samples) =
      (List.range n).map fun i => weightedMean (f i) samples := by
  have hzero : (Scalar.isZero (weightOf samples) = true) = (weightOf samples = 0) := decide_eq_true_eq
  unfold mean weightedMean
  rw [List.length_map, List.length_range, zeroVector_eq, List.map_map]
  simp only [hzero]
  split <;> rfl

/-- The weighted mean of the first samples, entry by entry. -/
theorem mean1_pooled (samples : List WeightedPair) (n k : Nat) :
    (pooled samples n k).mean1 = (List.range n).map fun i => weightedMean (fun p => p.1.getD i 0) samples :=
  mean_range samples n fun i p => p.1.getD i 0

theorem mean2_pooled (samples : List WeightedPair) (n k : Nat) :
    (pooled samples n k).mean2 = (List.range k).map fun j => weightedMean (fun p => p.2.getD j 0) samples :=
  mean_range samples k fun j p => p.2.getD j 0

theorem mean1_twoPass (n k : Nat) (pairs : List (List ℚ × List ℚ)) :
    (twoPass pairs n k).mean1 = (List.range n).map fun i => Exact.mean (firsts pairs i) := by
  rw [twoPass_eq_pooled, mean1_pooled]
  simp only [Exact.weightedMean_same one_ne_zero]
  rfl

/-! ## Merging -/

/-- Two batches of weighted pairs are merged when their samples have the same lengths, to the moments of all
pairs of both. -/
theorem merge_pooled (h : Positive samples) (h' : Positive samples') {m : MomentSums ℚ} :
    (pooled samples n k).merge (pooled samples' n' k') = .ok m ↔
      (n = n' ∧ k = k') ∧ m = pooled (samples ++ samples') n k := by
  have hzero : ∀ {samples : List WeightedPair}, Positive samples → ∀ n k,
      (Scalar.isZero (pooled samples n k).count = true ↔ samples = []) := fun h n k => by
    rw [← h.weightOf_eq_zero]
    exact Iff.of_eq decide_eq_true_eq
  unfold merge
  rw [dims_pooled, dims_pooled]
  by_cases heq : n = n' ∧ k = k'
  · obtain ⟨rfl, rfl⟩ := heq
    rw [if_neg (by simp), and_iff_right ⟨rfl, rfl⟩]
    -- a side without samples is passed over; the division by the total weight is only met with both
    rcases eq_or_ne samples' [] with rfl | hne'
    · rw [if_pos ((hzero h' _ _).2 rfl), List.append_nil, Except.ok.injEq, eq_comm]
    rw [if_neg (mt (hzero h' _ _).1 hne')]
    rcases eq_or_ne samples [] with rfl | hne
    · rw [if_pos ((hzero h _ _).2 rfl), List.nil_append, Except.ok.injEq, eq_comm]
    rw [if_neg (mt (hzero h _ _).1 hne), mean1_pooled, mean1_pooled, mean2_pooled, mean2_pooled]
    dsimp only [pooled]
    rw [zipWith_range, zipWith_range, zipWith_range, zipWith_range, outer_range, scaleMatrix_range, addMatrix_range,
      addMatrix_range]
    simp only [h.weightedComoment_append h', Exact.weightedSum_append, Exact.weightOf_append, Except.ok.injEq]
    exact eq_comm
  · rw [if_pos (by simpa [Prod.ext_iff] using heq)]
    simp [fail, heq]

/-- Two batches without weights are merged likewise. -/
theorem merge_twoPass {pairs pairs' : List (List ℚ × List ℚ)} {m : MomentSums ℚ} :
    (twoPass pairs n k).merge (twoPass pairs' n' k') = .ok m ↔
      (n = n' ∧ k = k') ∧ m = twoPass (pairs ++ pairs') n k := by
  rw [twoPass_eq_pooled, twoPass_eq_pooled, twoPass_eq_pooled, List.map_append]
  exact merge_pooled (Exact.positive_same one_pos pairs) (Exact.positive_same one_pos pairs')

end MomentSums
end ShotTally
