/-
Exact averages of several buckets taken together: the weights are added up, and the averages come to their
weighted mean. It is the average of the rows of these buckets in any order, and taking together and combining
with further averages commute.
-/
import Mathlib.Algebra.BigOperators.Group.List.Lemmas
import Mathlib.Tactic.Linarith
import ShotTally.Proofs.Statistics.Means
import ShotTally.Proofs.Statistics.Tables

namespace ShotTally.Exact

open Tensor

/-- The weight of some buckets and, number by number, the weighted mean of their averages; zeros without any weight. -/
def together (width : Nat) (blocks : List (List ℚ × ℚ)) : List ℚ × ℚ :=
  let weight := (blocks.map (·.2)).sum
  ((List.range width).map fun i =>
    if weight = 0 then 0 else (blocks.map fun b => b.1.getD i 0 * b.2).sum / weight, weight)

theorem length_together (width : Nat) (blocks : List (List ℚ × ℚ)) : (together width blocks).1.length = width := by
  simp [together]

theorem getD_together_of_zero {width : Nat} {blocks : List (List ℚ × ℚ)} (h : (together width blocks).2 = 0) (j : Nat) :
    (together width blocks).1.getD j 0 = 0 := by
  have hzero : (blocks.map (·.2)).sum = 0 := h
  simp only [together, hzero, if_true, List.map_const', List.length_range, List.getD_eq_getElem?_getD,
    List.getElem?_replicate]
  split <;> rfl

/-! ## Rows -/

theorem sum_lengths {β : Type} (ls : List (List β)) : (ls.map fun l => (l.length : ℚ)).sum = ls.flatten.length := by
  induction ls with
  | nil => rfl
  | cons l ls ih => rw [List.map_cons, List.sum_cons, ih, List.flatten_cons, List.length_append, Nat.cast_add]

/-- The means of some lists weighted by their lengths come to the mean over all of them. -/
theorem mean_flatten (ls : List (List ℚ)) :
    (if (ls.map fun l => (l.length : ℚ)).sum = 0 then 0
      else (ls.map fun l => mean l * l.length).sum / (ls.map fun l => (l.length : ℚ)).sum) = mean ls.flatten := by
  have hsum : (ls.map fun l => mean l * l.length).sum = ls.flatten.sum := by
    rw [List.sum_flatten]
    exact congrArg List.sum (List.map_congr_left fun l _ => mean_mul_length l)
  rw [sum_lengths, hsum, mean]
  by_cases h : ls.flatten = []
  · rw [if_pos h, h, List.length_nil, Nat.cast_zero, if_pos rfl]
  · rw [if_neg h, if_neg (by rwa [Nat.cast_eq_zero, List.length_eq_zero_iff])]

variable {inner : List Nat} {table table' : List (List ℚ)}

/-- The average of rows has the means of their columns. -/
theorem blockOf_eq (h : Fits inner table) :
    blockOf inner table =
      ((List.range (volume inner)).map fun i => mean (table.map (·.getD i 0)), (table.length : ℚ)) := by
  have hzero : (List.replicate (volume inner) (Scalar.zero : ℚ)).length = volume inner := List.length_replicate
  unfold blockOf totalRow
  rw [foldl_zipWith_add h hzero, List.map_map]
  refine congrArg (·, _) (List.map_congr_left fun i hi => ?_)
  have hstart : (List.replicate (volume inner) (Scalar.zero : ℚ)).getD i 0 = 0 := by
    rw [List.getD_eq_getElem?_getD, List.getElem?_replicate, if_pos (List.mem_range.1 hi)]
    rfl
  have hcolumn := sum_div_divisor (table.map (·.getD i 0))
  rw [List.length_map] at hcolumn
  rw [Function.comp_apply, hstart, zero_add]
  exact hcolumn

theorem blockOf_perm (h : Fits inner table) (hperm : table.Perm table') :
    blockOf inner table = blockOf inner table' := by
  rw [blockOf_eq h, blockOf_eq fun row hrow => h row (hperm.mem_iff.2 hrow), hperm.length_eq]
  exact congrArg (·, _) (List.map_congr_left fun i _ => mean_perm (hperm.map _))

/-- Averages taken together are the average of the rows of all of them. -/
theorem together_blockOf {tables : List (List (List ℚ))} (h : ∀ table ∈ tables, Fits inner table) :
    together (volume inner) (tables.map (blockOf inner)) = blockOf inner tables.flatten := by
  have hflat : Fits inner tables.flatten := by
    intro row hrow
    obtain ⟨table, htable, hrow⟩ := List.mem_flatten.1 hrow
    exact h table htable row hrow
  have hweight : ((tables.map (blockOf inner)).map (·.2)).sum = (tables.flatten.length : ℚ) := by
    rw [← sum_lengths, List.map_map]
    rfl
  rw [blockOf_eq hflat, together, hweight]
  refine congrArg (·, _) (List.map_congr_left fun i hi => ?_)
  have hcolumns := mean_flatten (tables.map fun table => table.map (·.getD i 0))
  have hlengths : ((tables.map fun table => table.map (·.getD i 0)).map fun l => (l.length : ℚ)).sum =
      tables.flatten.length := by
    rw [← sum_lengths, List.map_map]
    simp only [Function.comp_def, List.length_map]
  -- the weighted means of the tables are those that `mean_flatten` puts together
  have hentries : ((tables.map (blockOf inner)).map fun b => b.1.getD i 0 * b.2) =
      (tables.map fun table => table.map (·.getD i 0)).map fun l => mean l * l.length := by
    rw [List.map_map, List.map_map]
    refine List.map_congr_left fun table htable => ?_
    rw [Function.comp_apply, Function.comp_apply, blockOf_eq (h table htable), List.length_map]
    dsimp only
    rw [List.getD_eq_getElem?_getD, List.getElem?_map, List.getElem?_range (List.mem_range.1 hi), Option.map_some,
      Option.getD_some]
  rw [hlengths] at hcolumns
  rw [hentries, hcolumns, List.map_flatten]

/-! ## Combining -/

/-- The weighted mean of two averages has their weighted sum. -/
theorem meanOf_mul {v w : ℚ} (hv : 0 ≤ v) (hw : 0 ≤ w) (a b : ℚ) :
    WeightedAverage.meanOf v w a b * (v + w) = a * v + b * w := by
  show (a * v + b * w) / Scalar.divisor (v + w) * (v + w) = _
  rw [divisor_eq]
  by_cases h : v + w = 0
  · obtain ⟨rfl, rfl⟩ : v = 0 ∧ w = 0 := ⟨by linarith, by linarith⟩
    simp
  · rw [if_neg h, div_mul_cancel₀ _ h]

variable {ι : Type} {width : Nat} {l : List ι} {f g : ι → List ℚ × ℚ}

/-- Without any weight nothing adds to the weighted sums. -/
theorem sum_weighted_eq_zero (hf : ∀ i ∈ l, 0 ≤ (f i).2) (hzero : (l.map fun i => (f i).2).sum = 0) (j : Nat) :
    (l.map fun i => (f i).1.getD j 0 * (f i).2).sum = 0 := by
  have hall := eq_zero_of_sum hf hzero
  rw [List.map_congr_left fun i hi => by rw [hall i hi, mul_zero]]
  simp

/-- The weighted mean of some buckets has their weighted sum. -/
theorem weighted_together (hf : ∀ i ∈ l, 0 ≤ (f i).2) {j : Nat} (hj : j < width) :
    (together width (l.map f)).1.getD j 0 * (together width (l.map f)).2 =
      (l.map fun i => (f i).1.getD j 0 * (f i).2).sum := by
  have hweight : ((l.map f).map (·.2)).sum = (l.map fun i => (f i).2).sum := congrArg List.sum List.map_map
  have hsum : ((l.map f).map fun b => b.1.getD j 0 * b.2).sum = (l.map fun i => (f i).1.getD j 0 * (f i).2).sum :=
    congrArg List.sum List.map_map
  unfold together
  dsimp only
  rw [List.getD_eq_getElem?_getD, List.getElem?_map, List.getElem?_range hj, Option.map_some, Option.getD_some,
    hweight, hsum]
  by_cases hzero : (l.map fun i => (f i).2).sum = 0
  · rw [if_pos hzero, hzero, mul_zero, sum_weighted_eq_zero hf hzero]
  · rw [if_neg hzero, div_mul_cancel₀ _ hzero]

theorem weight_nonneg (hf : ∀ i ∈ l, 0 ≤ (f i).2) : 0 ≤ (together width (l.map f)).2 := by
  refine List.sum_nonneg fun w hw => ?_
  rw [List.map_map] at hw
  obtain ⟨i, hi, rfl⟩ := List.mem_map.1 hw
  exact hf i hi

theorem getD_combineBlock {x y : List ℚ × ℚ} (hx : x.1.length = width) (hy : y.1.length = width) {j : Nat}
    (hj : j < width) :
    (combineBlock x y).1.getD j 0 = WeightedAverage.meanOf x.2 y.2 (x.1.getD j 0) (y.1.getD j 0) := by
  simp [combineBlock, List.getD_eq_getElem?_getD, hx, hy, hj]

/-- The weights of buckets that are combined one by one add up to those of both. -/
theorem weight_together_combined : (together width (l.map fun i => combineBlock (f i) (g i))).2 =
    (together width (l.map f)).2 + (together width (l.map g)).2 := by
  simp only [together, List.map_map]
  exact List.sum_map_add

theorem getD_combineBlock_together (hf : ∀ i ∈ l, (f i).1.length = width ∧ 0 ≤ (f i).2)
    (hg : ∀ i ∈ l, (g i).1.length = width ∧ 0 ≤ (g i).2) {j : Nat} (hj : j < width) :
    (combineBlock (together width (l.map f)) (together width (l.map g))).1.getD j 0 =
      (together width (l.map fun i => combineBlock (f i) (g i))).1.getD j 0 := by
  have hf' : ∀ i ∈ l, 0 ≤ (f i).2 := fun i hi => (hf i hi).2
  have hg' : ∀ i ∈ l, 0 ≤ (g i).2 := fun i hi => (hg i hi).2
  have hcombined : ∀ i ∈ l, 0 ≤ (combineBlock (f i) (g i)).2 := fun i hi => add_nonneg (hf' i hi) (hg' i hi)
  rw [getD_combineBlock (length_together _ _) (length_together _ _) hj]
  by_cases hzero : (together width (l.map f)).2 + (together width (l.map g)).2 = 0
  -- without any weight both are zero
  · have hv : 0 ≤ (together width (l.map f)).2 := weight_nonneg hf'
    have hw : 0 ≤ (together width (l.map g)).2 := weight_nonneg hg'
    rw [getD_together_of_zero (weight_together_combined.trans hzero),
      getD_together_of_zero (by linarith : (together width (l.map f)).2 = 0),
      getD_together_of_zero (by linarith : (together width (l.map g)).2 = 0)]
    show (0 * _ + 0 * _) / _ = _
    rw [zero_mul, zero_mul, add_zero, zero_div]
  -- else both have the weighted sum of all buckets
  · refine mul_right_cancel₀ hzero ?_
    rw [meanOf_mul (weight_nonneg hf') (weight_nonneg hg'), weighted_together hf' hj, weighted_together hg' hj,
      ← weight_together_combined, weighted_together hcombined hj, ← List.sum_map_add]
    refine congrArg List.sum (List.map_congr_left fun i hi => ?_)
    rw [getD_combineBlock (hf i hi).1 (hg i hi).1 hj]
    exact (meanOf_mul (hf' i hi) (hg' i hi) _ _).symm

/-- Buckets that are combined with others and taken together are those taken together and combined. -/
theorem combineBlock_together (hf : ∀ i ∈ l, (f i).1.length = width ∧ 0 ≤ (f i).2)
    (hg : ∀ i ∈ l, (g i).1.length = width ∧ 0 ≤ (g i).2) :
    combineBlock (together width (l.map f)) (together width (l.map g)) =
      together width (l.map fun i => combineBlock (f i) (g i)) := by
  have hlength : (combineBlock (together width (l.map f)) (together width (l.map g))).1.length = width :=
    WeightedAverage.length_combineBlock (length_together _ _) (length_together _ _)
  refine Prod.ext (List.ext_getElem (by rw [hlength, length_together]) fun j hj hj' => ?_) weight_together_combined.symm
  have h := getD_combineBlock_together hf hg (by rwa [hlength] at hj)
  rwa [List.getD_eq_getElem?_getD, List.getD_eq_getElem?_getD, List.getElem?_eq_getElem hj,
    List.getElem?_eq_getElem hj'] at h

end ShotTally.Exact
