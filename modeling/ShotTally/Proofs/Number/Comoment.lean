/-
The sum of the products of deviations from two means. It is defined by two passes over the values, one for
the means and one for the deviations; taking one more pair, or all values of another list with weights of
their own, changes it by a product of differences of means, so no second pass is needed.
-/
import Mathlib.Algebra.BigOperators.Ring.List
import Mathlib.Tactic.FieldSimp
import Mathlib.Tactic.LinearCombination
import Mathlib.Tactic.Positivity
import Mathlib.Tactic.Ring
import ShotTally.Proofs.Number.Exact

namespace ShotTally.Exact

/-- The sum of the products of the deviations from the means over all pairs. -/
def comoment (l : List (ℚ × ℚ)) : ℚ :=
  (l.map fun p => (p.1 - mean (l.map Prod.fst)) * (p.2 - mean (l.map Prod.snd))).sum

/-! ## Weights -/

/-- A value that counts with a weight. -/
structure Weighted (β : Type) where
  weight : ℚ
  value : β

variable {β : Type}

/-- The weight of some values together. -/
def weightOf (l : List (Weighted β)) : ℚ := (l.map Weighted.weight).sum

/-- The sum of a number over some values, each as often as its weight says. -/
def weightedSum (f : β → ℚ) (l : List (Weighted β)) : ℚ := (l.map fun s => s.weight * f s.value).sum

/-- The weighted mean of a number, zero without any weight. -/
def weightedMean (f : β → ℚ) (l : List (Weighted β)) : ℚ := if weightOf l = 0 then 0 else weightedSum f l / weightOf l

/-- The weighted sum of the products of the deviations of two numbers from their weighted means. -/
def weightedComoment (f g : β → ℚ) (l : List (Weighted β)) : ℚ :=
  weightedSum (fun v => (f v - weightedMean f l) * (g v - weightedMean g l)) l

variable (f g : β → ℚ) (l m : List (Weighted β))

@[simp] theorem weightOf_append : weightOf (l ++ m) = weightOf l + weightOf m := by
  simp [weightOf]

@[simp] theorem weightedSum_append : weightedSum f (l ++ m) = weightedSum f l + weightedSum f m := by
  simp [weightedSum]

theorem weightedSum_deviations (a b : ℚ) : weightedSum (fun v => (f v - a) * (g v - b)) l =
    weightedSum (fun v => f v * g v) l - a * weightedSum g l - b * weightedSum f l + weightOf l * (a * b) := by
  induction l with
  | nil => simp [weightedSum, weightOf]
  | cons s l ih =>
    simp only [weightedSum, weightOf, List.map_cons, List.sum_cons] at ih ⊢
    rw [ih]
    ring

/-! ### Order -/

variable {l m}

theorem weightOf_perm (h : l.Perm m) : weightOf l = weightOf m := (h.map _).sum_eq

theorem weightedSum_perm (h : l.Perm m) : weightedSum f l = weightedSum f m := (h.map _).sum_eq

theorem weightedComoment_perm (h : l.Perm m) : weightedComoment f g l = weightedComoment f g m := by
  unfold weightedComoment weightedMean
  rw [weightedSum_perm f h, weightedSum_perm g h, weightOf_perm h]
  exact weightedSum_perm _ h

/-! ### Positive weights -/

/-- Every value counts. -/
def Positive (l : List (Weighted β)) : Prop := ∀ s ∈ l, 0 < s.weight

theorem Positive.append (hl : Positive l) (hm : Positive m) : Positive (l ++ m) :=
  fun s hs => (List.mem_append.1 hs).elim (hl s) (hm s)

theorem Positive.weightOf_pos (h : Positive l) (hne : l ≠ []) : 0 < weightOf l := by
  refine List.sum_pos _ (fun w hw => ?_) (by simpa using hne)
  obtain ⟨s, hs, rfl⟩ := List.mem_map.1 hw
  exact h s hs

theorem Positive.weightOf_eq_zero (h : Positive l) : weightOf l = 0 ↔ l = [] := by
  constructor
  · intro hzero
    by_contra hne
    exact (h.weightOf_pos hne).ne' hzero
  · rintro rfl
    rfl

theorem Positive.weightedMean_mul (h : Positive l) (f : β → ℚ) : weightedMean f l * weightOf l = weightedSum f l := by
  unfold weightedMean
  split
  · rename_i hzero
    rw [h.weightOf_eq_zero.1 hzero]
    simp [weightedSum]
  · rename_i hne
    rw [div_mul_cancel₀ _ hne]

/-- It is the weighted sum of the products less that of the product of the means. -/
theorem Positive.weightedComoment_eq (h : Positive l) (f g : β → ℚ) : weightedComoment f g l =
    weightedSum (fun v => f v * g v) l - weightOf l * (weightedMean f l * weightedMean g l) := by
  rw [weightedComoment, weightedSum_deviations, ← h.weightedMean_mul f, ← h.weightedMean_mul g]
  ring

/-- All values of another list add the product of the differences of the means, as often as the weights say. -/
theorem Positive.weightedComoment_append (hl : Positive l) (hm : Positive m) (f g : β → ℚ) :
    weightedComoment f g (l ++ m) =
    weightedComoment f g l + weightedComoment f g m +
      (weightedMean f l - weightedMean f m) * (weightedMean g l - weightedMean g m) *
        (weightOf l * weightOf m / (weightOf l + weightOf m)) := by
  have hall := hl.append hm
  rcases eq_or_ne (l ++ m) [] with hnil | hne
  · obtain ⟨rfl, rfl⟩ := List.append_eq_nil_iff.1 hnil
    simp [weightedComoment, weightedSum]
  have hpos : weightOf l + weightOf m ≠ 0 := by
    rw [← weightOf_append]
    exact (hall.weightOf_pos hne).ne'
  -- the mean of both is the mean of the means by weight
  have hmean : ∀ f : β → ℚ, weightedMean f (l ++ m) =
      (weightedMean f l * weightOf l + weightedMean f m * weightOf m) / (weightOf l + weightOf m) := by
    intro f
    rw [eq_div_iff hpos, hl.weightedMean_mul, hm.weightedMean_mul, ← weightOf_append, hall.weightedMean_mul,
      weightedSum_append]
  rw [hall.weightedComoment_eq, hl.weightedComoment_eq, hm.weightedComoment_eq, hmean, hmean, weightOf_append,
    weightedSum_append]
  field_simp
  ring

/-! ### One weight for all -/

variable {v : List β} {w : ℚ}

theorem positive_same (hw : 0 < w) (v : List β) : Positive (v.map (Weighted.mk w)) := by
  intro s hs
  obtain ⟨x, -, rfl⟩ := List.mem_map.1 hs
  exact hw

theorem weightOf_same (w : ℚ) (v : List β) : weightOf (v.map (Weighted.mk w)) = w * v.length := by
  simp [weightOf, Function.comp_def, mul_comm]

theorem weightedSum_same (w : ℚ) (f : β → ℚ) (v : List β) :
    weightedSum f (v.map (Weighted.mk w)) = w * (v.map f).sum := by
  simp [weightedSum, Function.comp_def, List.sum_map_mul_left]

theorem weightedMean_same (hw : w ≠ 0) (f : β → ℚ) (v : List β) :
    weightedMean f (v.map (Weighted.mk w)) = mean (v.map f) := by
  unfold weightedMean mean
  rw [weightOf_same, weightedSum_same, List.length_map, mul_div_mul_left _ _ hw]
  simp [hw]

/-- With one weight for all, it is the co-moment as often as the weight says. -/
theorem weightedComoment_same (hw : w ≠ 0) (f g : β → ℚ) (v : List β) :
    weightedComoment f g (v.map (Weighted.mk w)) = w * comoment (v.map fun x => (f x, g x)) := by
  rw [weightedComoment, weightedSum_same, weightedMean_same hw, weightedMean_same hw, comoment]
  simp [Function.comp_def]

/-! ## One more pair -/

/-- It is the sum of the products less that of the product of the means. -/
theorem comoment_eq (l : List (ℚ × ℚ)) : comoment l =
    (l.map fun p => p.1 * p.2).sum - l.length * (mean (l.map Prod.fst) * mean (l.map Prod.snd)) := by
  have h := (positive_same one_pos l).weightedComoment_eq Prod.fst Prod.snd
  rw [weightedComoment_same one_ne_zero, weightedMean_same one_ne_zero, weightedMean_same one_ne_zero, weightedSum_same,
    weightOf_same] at h
  simpa using h

theorem mean_concat_mul (l : List ℚ) (x : ℚ) : mean (l ++ [x]) * (l.length + 1) = mean l * l.length + x := by
  have h := mean_mul_length (l ++ [x])
  rw [List.length_append, List.length_singleton, List.sum_append, List.sum_singleton, ← mean_mul_length l] at h
  simpa using h

/-- The mean moves towards one more number by its share of the difference. -/
theorem mean_concat (l : List ℚ) (x : ℚ) : mean (l ++ [x]) = mean l + (x - mean l) / ((l.length + 1 : Nat) : ℚ) := by
  have h := mean_concat_mul l x
  have hne : (l.length : ℚ) + 1 ≠ 0 := by positivity
  push_cast
  field_simp
  linear_combination h

/-- One more pair adds the product of its deviations, the first from the new mean and the second from the old one. -/
theorem comoment_concat (l : List (ℚ × ℚ)) (x y : ℚ) : comoment (l ++ [(x, y)]) =
    comoment l + (x - mean (l.map Prod.fst ++ [x])) * (y - mean (l.map Prod.snd)) := by
  have hx := mean_concat_mul (l.map Prod.fst) x
  have hy := mean_concat_mul (l.map Prod.snd) y
  rw [List.length_map] at hx hy
  rw [comoment_eq, comoment_eq]
  simp only [List.map_append, List.map_cons, List.map_nil, List.sum_append, List.sum_singleton, List.length_append,
    List.length_singleton, Nat.cast_add, Nat.cast_one]
  linear_combination -mean (l.map Prod.fst ++ [x]) * hy - mean (l.map Prod.snd) * hx

end ShotTally.Exact
