/-
Moments over exact numbers, in one pass. The running means and co-moments are, after every pair, those of
all pairs so far, so what the computation comes to is what two passes over the pairs come to.
-/
import ShotTally.Proofs.Number.Comoment
import ShotTally.Proofs.Outcome
import ShotTally.Statistics.Moments

namespace ShotTally

open Exact (mean comoment mean_concat comoment_concat)

/-! ## Vectors and matrices by entry -/

section

variable {α : Type} [Scalar α] (n k : Nat)

theorem zeroVector_eq : (zeroVector n : List α) = (List.range n).map fun _ => Scalar.zero := by
  simp [zeroVector]

theorem zeroMatrix_eq : (zeroMatrix n k : List (List α)) =
    (List.range n).map fun _ => (List.range k).map fun _ => Scalar.zero := by
  simp [zeroMatrix, zeroVector]

theorem zipWith_range {β γ δ : Type} (op : β → γ → δ) (f : Nat → β) (g : Nat → γ) :
    ((List.range n).map f).zipWith op ((List.range n).map g) = (List.range n).map fun i => op (f i) (g i) := by
  rw [List.zipWith_map, List.zipWith_self]

theorem outer_range (f g : Nat → α) : outer ((List.range n).map f) ((List.range k).map g) =
    (List.range n).map fun i => (List.range k).map fun j => f i * g j := by
  simp [outer, Function.comp_def]

theorem addMatrix_range (f g : Nat → Nat → α) :
    addMatrix ((List.range n).map fun i => (List.range k).map (f i))
      ((List.range n).map fun i => (List.range k).map (g i)) =
      (List.range n).map fun i => (List.range k).map fun j => f i j + g i j := by
  simp only [addMatrix, zipWith_range]

theorem scaleMatrix_range (f : Nat → Nat → α) (c : α) :
    scaleMatrix ((List.range n).map fun i => (List.range k).map (f i)) c =
    (List.range n).map fun i => (List.range k).map fun j => f i j * c := by
  simp [scaleMatrix, Function.comp_def]

end

/-! ## Two passes -/

namespace MomentSums

section

variable (pairs : List (List ℚ × List ℚ))

/-- The entries at one position of the first samples. -/
def firsts (i : Nat) : List ℚ := pairs.map fun p => p.1.getD i 0

/-- The entries at one position of the second samples. -/
def seconds (j : Nat) : List ℚ := pairs.map fun p => p.2.getD j 0

/-- The pairs of entries at two positions. -/
def entries (i j : Nat) : List (ℚ × ℚ) := pairs.map fun p => (p.1.getD i 0, p.2.getD j 0)

/-- The moments of some pairs of samples of these lengths: their number, the sums of the entries, and for
each two positions the sum of the products of the deviations from the means over all pairs. -/
def twoPass (n k : Nat) : MomentSums ℚ where
  covarianceSum := (List.range n).map fun i => (List.range k).map fun j => comoment (entries pairs i j)
  sum1 := (List.range n).map fun i => (firsts pairs i).sum
  sum2 := (List.range k).map fun j => (seconds pairs j).sum
  count := (pairs.length : ℚ)

/-- The moments when every pair counts with a weight instead. -/
def weighted (m : MomentSums ℚ) (w : ℚ) : MomentSums ℚ where
  covarianceSum := scaleMatrix m.covarianceSum w
  sum1 := m.sum1.map (· * w)
  sum2 := m.sum2.map (· * w)
  count := m.count * w

/-- Without a pair there are zeros. -/
theorem twoPass_nil (n k : Nat) : twoPass [] n k = zeros n k := by
  unfold zeros
  rw [zeroMatrix_eq, zeroVector_eq, zeroVector_eq]
  rfl

@[simp] theorem weighted_zeros (n k : Nat) (w : ℚ) : (zeros n k).weighted w = zeros n k := by
  have hzero : (Scalar.zero : ℚ) * w = Scalar.zero := zero_mul w
  simp [zeros, weighted, scaleMatrix, zeroMatrix, zeroVector, hzero]

@[simp] theorem weighted_one (m : MomentSums ℚ) : m.weighted 1 = m := by
  simp [weighted, scaleMatrix]

end

variable (pairs pairs' : List (List ℚ × List ℚ)) (i j : Nat)

@[simp] theorem firsts_append : firsts (pairs ++ pairs') i = firsts pairs i ++ firsts pairs' i := List.map_append

@[simp] theorem seconds_append : seconds (pairs ++ pairs') j = seconds pairs j ++ seconds pairs' j := List.map_append

@[simp] theorem length_firsts : (firsts pairs i).length = pairs.length := List.length_map _

@[simp] theorem length_seconds : (seconds pairs j).length = pairs.length := List.length_map _

@[simp] theorem map_fst_entries : (entries pairs i j).map Prod.fst = firsts pairs i := by
  simp [entries, firsts]

@[simp] theorem map_snd_entries : (entries pairs i j).map Prod.snd = seconds pairs j := by
  simp [entries, seconds]

end MomentSums

open MomentSums (firsts seconds entries twoPass)

/-! ## One pass -/

namespace RunningMoments

/-- The means and co-moments of some pairs of samples of these lengths. -/
def after (n k : Nat) (pairs : List (List ℚ × List ℚ)) : RunningMoments ℚ where
  seen := pairs.length
  meanX := (List.range n).map fun i => mean (firsts pairs i)
  meanY := (List.range k).map fun j => mean (seconds pairs j)
  comoment := (List.range n).map fun i => (List.range k).map fun j => Exact.comoment (entries pairs i j)

variable {n k : Nat} {pairs : List (List ℚ × List ℚ)}

theorem start_eq (n k : Nat) : (start n k : RunningMoments ℚ) = after n k [] := by
  unfold start
  rw [zeroVector_eq, zeroVector_eq, zeroMatrix_eq]
  rfl

/-- The means after one more sample. -/
theorem advance_eq {x : List ℚ} {l : Nat → List ℚ} {m : Nat} (hl : ∀ i, (l i).length = m) :
    advance ((List.range x.length).map fun i => mean (l i)) x (Scalar.ofNat (m + 1)) =
      (List.range x.length).map fun i => mean (l i ++ [x.getD i 0]) := by
  conv_lhs => rw [eq_range_getD x]
  rw [advance, List.length_map, List.length_range, zipWith_range]
  refine List.map_congr_left fun i _ => ?_
  rw [mean_concat, hl]
  rfl

/-- The deviations of a sample from some numbers. -/
theorem deviations_eq (x : List ℚ) (f : Nat → ℚ) : x.zipWith (· - ·) ((List.range x.length).map f) =
    (List.range x.length).map fun i => x.getD i 0 - f i := by
  conv_lhs => rw [eq_range_getD x]
  rw [List.length_map, List.length_range, zipWith_range]

/-- Taking one more pair of samples of these lengths. -/
theorem push_pair (x y : List ℚ) (pairs : List (List ℚ × List ℚ)) :
    (after x.length y.length pairs).push x y = .ok (after x.length y.length (pairs ++ [(x, y)])) := by
  have hx := advance_eq (x := x) fun i => MomentSums.length_firsts pairs i
  have hy := advance_eq (x := y) fun j => MomentSums.length_seconds pairs j
  have hcomoment : ∀ i j, Exact.comoment (entries (pairs ++ [(x, y)]) i j) = Exact.comoment (entries pairs i j) +
      (x.getD i 0 - mean (firsts pairs i ++ [x.getD i 0])) * (y.getD j 0 - mean (seconds pairs j)) := by
    intro i j
    rw [← MomentSums.map_fst_entries pairs i j, ← MomentSums.map_snd_entries pairs i j, ← comoment_concat]
    simp [entries]
  unfold push
  rw [if_neg (by simp [after])]
  dsimp only [after]
  rw [hx, hy, deviations_eq, deviations_eq, outer_range, addMatrix_range]
  simp only [hcomoment, MomentSums.firsts_append, MomentSums.seconds_append, List.length_append]
  rfl

/-- A pair of samples of these lengths is taken, and others are refused. -/
theorem push_after {x y : List ℚ} {m : RunningMoments ℚ} : (after n k pairs).push x y = .ok m ↔
    (x.length = n ∧ y.length = k) ∧ m = after n k (pairs ++ [(x, y)]) := by
  by_cases h : x.length = n ∧ y.length = k
  · obtain ⟨rfl, rfl⟩ := h
    rw [push_pair, Except.ok.injEq, and_iff_right ⟨rfl, rfl⟩, eq_comm]
  · unfold push
    rw [if_pos (by simpa [after, -not_and, not_and_or] using h)]
    simp [fail, h]

/-- When all pairs have come in, the sums are those of two passes, for every weight that the pairs have. -/
theorem finish_after (n k : Nat) (pairs : List (List ℚ × List ℚ)) (w : ℚ) :
    (after n k pairs).finish w = (twoPass pairs n k).weighted w := by
  have hx : ∀ i, mean (firsts pairs i) * (pairs.length * w) = (firsts pairs i).sum * w := fun i => by
    rw [← Exact.mean_mul_length, MomentSums.length_firsts, mul_assoc]
  have hy : ∀ j, mean (seconds pairs j) * (pairs.length * w) = (seconds pairs j).sum * w := fun j => by
    rw [← Exact.mean_mul_length, MomentSums.length_seconds, mul_assoc]
  have hcount : (Scalar.ofNat pairs.length : ℚ) = pairs.length := rfl
  unfold finish MomentSums.weighted
  dsimp only [after, twoPass]
  simp only [hcount, List.map_map, Function.comp_def, hx, hy]

end RunningMoments

end ShotTally
