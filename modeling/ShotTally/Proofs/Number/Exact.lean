/-
Exact numbers. The computations on scalars are run on rational numbers too, where sums, products
and quotients are exact, and the mean over two lists is the weighted mean of their means.
-/
import Mathlib.Algebra.BigOperators.Group.List.Basic
import Mathlib.Algebra.Order.BigOperators.Group.List
import Mathlib.Algebra.Order.Field.Rat
import ShotTally.Number.Scalar

namespace ShotTally

/-! ## Rational numbers as scalars -/

/-- The value of a finite double. -/
def Double.toRat (d : Double) : ℚ :=
  let magnitude : ℚ :=
    if 0 ≤ d.scale then ((d.significand * 2 ^ d.scale.toNat : Nat) : ℚ)
    else (d.significand : ℚ) / ((2 ^ (-d.scale).toNat : Nat) : ℚ)
  if d.isNegative then -magnitude else magnitude

instance : Scalar ℚ where
  zero := 0
  emptySum := 0
  abs x := |x|
  lt x y := decide (x < y)
  isZero x := decide (x = 0)
  ofNat n := n
  ofDouble := Double.toRat

/-- A vector has its entries. -/
theorem eq_range_getD (x : List ℚ) : x = (List.range x.length).map fun i => x.getD i 0 := by
  refine List.ext_getElem (by simp) fun i hi _ => ?_
  simp [List.getD_eq_getElem?_getD, hi]

namespace Exact

theorem divisor_eq (n : ℚ) : Scalar.divisor n = if n = 0 then 1 else n := by
  have hz : Scalar.isZero n = decide (n = 0) := rfl
  unfold Scalar.divisor
  rw [hz]
  by_cases h : n = 0
  · rw [if_pos h, if_pos (decide_eq_true h)]
    exact Nat.cast_one
  · rw [if_neg h, if_neg (by simpa using h)]

/-- A sum that is zero where its count is, divided by the count and multiplied back. -/
theorem div_divisor_mul {x n : ℚ} (h : n = 0 → x = 0) : x / Scalar.divisor n * n = x := by
  rw [divisor_eq]
  by_cases hn : n = 0
  · rw [if_pos hn, h hn, zero_div, zero_mul]
  · rw [if_neg hn, div_mul_cancel₀ _ hn]

/-- Numbers that are not negative and add up to zero are zero. -/
theorem eq_zero_of_sum {ι : Type} {l : List ι} {f : ι → ℚ} (hnonneg : ∀ i ∈ l, 0 ≤ f i) (hzero : (l.map f).sum = 0) :
    ∀ i ∈ l, f i = 0 := by
  have hall : ∀ x ∈ l.map f, 0 ≤ x := by
    intro x hx
    obtain ⟨i, hi, rfl⟩ := List.mem_map.1 hx
    exact hnonneg i hi
  exact fun i hi => List.all_zero_of_le_zero_le_of_sum_eq_zero hall hzero (List.mem_map_of_mem hi)

/-! ## Means -/

/-- The mean of some numbers, zero when there are none. -/
def mean (l : List ℚ) : ℚ := if l = [] then 0 else l.sum / l.length

theorem mean_mul_length (l : List ℚ) : mean l * l.length = l.sum := by
  unfold mean
  split
  · rename_i h
    subst h
    simp
  · rename_i h
    have hl : (l.length : ℚ) ≠ 0 := by
      rw [Nat.cast_ne_zero]
      exact fun h0 => h (List.length_eq_zero_iff.1 h0)
    rw [div_mul_cancel₀ _ hl]

theorem mean_eq (l : List ℚ) : mean l = l.sum / l.length := by
  unfold mean
  split
  · rename_i hnil
    rw [hnil, List.sum_nil, zero_div]
  · rfl

theorem mean_perm {l m : List ℚ} (h : l.Perm m) : mean l = mean m := by
  rw [mean_eq, mean_eq, h.sum_eq, h.length_eq]

/-- Dividing a sum by its count, where a count of zero leaves it alone. -/
theorem sum_div_divisor (l : List ℚ) : l.sum / Scalar.divisor ((l.length : Nat) : ℚ) = mean l := by
  unfold mean
  rw [divisor_eq]
  by_cases h : l = []
  · subst h
    simp
  · have hl : (l.length : ℚ) ≠ 0 := by
      rw [Nat.cast_ne_zero]
      exact fun h0 => h (List.length_eq_zero_iff.1 h0)
    rw [if_neg h, if_neg hl]

/-- The means of two lists weighted by their lengths come to the mean over both. -/
theorem mean_append (l m : List ℚ) :
    (mean l * l.length + mean m * m.length) / Scalar.divisor ((l.length : ℚ) + m.length) = mean (l ++ m) := by
  rw [mean_mul_length, mean_mul_length, ← sum_div_divisor, List.sum_append, List.length_append, Nat.cast_add]

end Exact
end ShotTally
