/-
Filters are linear maps. A filter that stays within the samples multiplies each of them by its matrix, and
co-moments are linear in both numbers; so it is the same to filter every sample and take the moments, or to take
the moments of the unfiltered samples and multiply these by the matrices of the filters.
-/
import Mathlib.Algebra.BigOperators.Field
import Mathlib.Algebra.BigOperators.Fin
import Mathlib.Data.Matrix.Mul
import ShotTally.Proofs.Statistics.Samples

namespace ShotTally

open MomentSums (firsts seconds entries twoPass samplePairs)
open scoped Matrix

/-! ## Linear combinations -/

namespace Exact

variable {ι a b : Type} [Fintype a] [Fintype b]

/-- The sum of linear combinations is that of the sums. -/
theorem sum_combination (l : List ι) (c : a → ℚ) (f : a → ι → ℚ) :
    (l.map fun r => ∑ x, c x * f x r).sum = ∑ x, c x * (l.map (f x)).sum := by
  induction l with
  | nil => simp
  | cons r l ih => simp only [List.map_cons, List.sum_cons, ih, mul_add, Finset.sum_add_distrib]

theorem mean_combination (l : List ι) (c : a → ℚ) (f : a → ι → ℚ) :
    mean (l.map fun r => ∑ x, c x * f x r) = ∑ x, c x * mean (l.map (f x)) := by
  simp only [mean_eq, List.length_map, sum_combination, Finset.sum_div, mul_div_assoc]

theorem comoment_map (l : List ι) (f g : ι → ℚ) : comoment (l.map fun r => (f r, g r)) =
    (l.map fun r => (f r - mean (l.map f)) * (g r - mean (l.map g))).sum := by
  simp only [comoment, List.map_map, Function.comp_def]

/-- Deviations of linear combinations are those of the numbers, combined. -/
theorem deviation_combination (l : List ι) (c : a → ℚ) (f : a → ι → ℚ) (r : ι) :
    ∑ x, c x * f x r - mean (l.map fun r => ∑ x, c x * f x r) = ∑ x, c x * (f x r - mean (l.map (f x))) := by
  simp only [mean_combination, mul_sub, Finset.sum_sub_distrib]

theorem sum_mul_sum_combination (c : a → ℚ) (d : b → ℚ) (u : a → ℚ) (v : b → ℚ) :
    (∑ x, c x * u x) * (∑ y, d y * v y) = ∑ x, c x * ∑ y, d y * (u x * v y) := by
  rw [Finset.sum_mul]
  refine Finset.sum_congr rfl fun x _ => ?_
  rw [mul_assoc, Finset.mul_sum]
  exact congrArg _ (Finset.sum_congr rfl fun y _ => mul_left_comm _ _ _)

/-- The co-moment is linear in both numbers. -/
theorem comoment_combination (l : List ι) (c : a → ℚ) (d : b → ℚ) (f : a → ι → ℚ) (g : b → ι → ℚ) :
    comoment (l.map fun r => (∑ x, c x * f x r, ∑ y, d y * g y r)) =
      ∑ x, c x * ∑ y, d y * comoment (l.map fun r => (f x r, g y r)) := by
  simp only [comoment_map, deviation_combination, sum_mul_sum_combination, sum_combination]

end Exact

/-! ## Vectors and matrices as lists -/

section

variable {n k : Nat}

/-- The rows of a matrix. -/
def rowsOf (A : Matrix (Fin n) (Fin k) ℚ) : List (List ℚ) := List.ofFn fun i => List.ofFn (A i)

theorem map_range_eq_ofFn {β : Type} (f : Nat → β) : (List.range n).map f = List.ofFn fun i : Fin n => f i := by
  rw [List.ofFn_eq_pmap, List.pmap_eq_map]

end

/-! ## The matrix of a filter -/

namespace SampleFilter

/-- How often a channel of the sample counts in a number that the filter makes of it. -/
def coefficient (number channel : Nat) : SampleFilter → ℚ
  | .identity => if number = channel then 1 else 0
  | .select indices => if indices.getD number 0 = channel then 1 else 0
  | .rangeSums ranges =>
    let range := ranges.getD number (0, 0)
    if range.1 ≤ channel ∧ channel < range.2 then 1 else 0

/-- The matrix of a filter on samples of so many channels, a row for each number that it makes of them. -/
def matrix (n : Nat) (filter : SampleFilter) : Matrix (Fin (filter.outputLength n)) (Fin n) ℚ :=
  .of fun i j => filter.coefficient i j

@[simp] theorem matrix_apply (n : Nat) (filter : SampleFilter) (i : Fin (filter.outputLength n)) (j : Fin n) :
    filter.matrix n i j = filter.coefficient i j := rfl

/-- The sum over a range of channels. -/
theorem sum_range_eq : ∀ (sample : List ℚ) (start stop : Nat), ((sample.drop start).take (stop - start)).sum =
    ∑ j : Fin sample.length, (if start ≤ j ∧ j < stop then 1 else 0) * sample.getD j 0
  | [], start, stop => by simp
  | x :: sample, 0, 0 => by simp
  | x :: sample, 0, stop + 1 => by
    have ih := sum_range_eq sample 0 stop
    change _ = ∑ j : Fin (sample.length + 1), _
    rw [Fin.sum_univ_succ]
    simpa using ih
  | x :: sample, start + 1, 0 => by simp
  | x :: sample, start + 1, stop + 1 => by
    have ih := sum_range_eq sample start stop
    change _ = ∑ j : Fin (sample.length + 1), _
    rw [Fin.sum_univ_succ]
    simpa using ih

/-- One channel. -/
theorem getD_eq_sum {sample : List ℚ} {place : Nat} (h : place < sample.length) :
    sample.getD place 0 = ∑ j : Fin sample.length, (if place = j then 1 else 0) * sample.getD j 0 := by
  have hone : ∀ j : Fin sample.length, place = j ↔ (⟨place, h⟩ : Fin sample.length) = j := fun j => by rw [Fin.ext_iff]
  simp only [hone, ite_mul, one_mul, zero_mul, Finset.sum_ite_eq, Finset.mem_univ, if_true]

/-- The numbers that a filter makes of a sample it stays within are linear in the channels. -/
theorem getD_image {n i : Nat} {sample : List ℚ} {filter : SampleFilter} (hlen : sample.length = n)
    (h : filter.Within n) (hi : i < filter.outputLength n) :
    (filter.image sample).getD i 0 = ∑ j : Fin n, filter.coefficient i j * sample.getD j 0 := by
  subst hlen
  cases filter with
  | identity => exact getD_eq_sum hi
  | select indices =>
    have hi : i < indices.length := hi
    have hzero : (Scalar.zero : ℚ) = 0 := rfl
    have hpick : (image sample (.select indices)).getD i 0 = sample.getD (indices.getD i 0) 0 := by
      simp [image, hi, hzero]
    rw [hpick]
    exact getD_eq_sum (by simpa [hi] using h _ (List.getElem_mem hi))
  | rangeSums ranges =>
    have hi : i < ranges.length := hi
    have hsum : (image sample (.rangeSums ranges)).getD i 0 =
        ((sample.drop (ranges.getD i (0, 0)).1).take ((ranges.getD i (0, 0)).2 - (ranges.getD i (0, 0)).1)).sum := by
      have hempty : (Scalar.emptySum : ℚ) = 0 := rfl
      simp [image, hi, Scalar.sum, List.sum_eq_foldl, hempty]
    rw [hsum]
    exact sum_range_eq sample _ _

/-- A filter succeeds only within the samples, and reports when it reaches past one. -/
theorem apply_ends {α : Type} [Scalar α] (sample : List α) (filter : SampleFilter) :
    Ends (filter.apply sample) (fun _ => filter.Within sample.length)
      fun e => ∃ r, e = .reported r ∧ r.family = .stats ∧ r.code = "filter_bounds" := by
  have hreport : ∀ index length, (boundsReport index length).family = .stats ∧
      (boundsReport index length).code = "filter_bounds" := fun _ _ => ⟨rfl, rfl⟩
  cases filter with
  | identity => exact ends_ok.2 trivial
  | select indices =>
    refine Ends.forall_mapM fun i _ => ?_
    cases hi : sample[i]? with
    | some x => exact ends_ok.2 (List.getElem?_eq_some_iff.1 hi).1
    | none => exact ends_error.2 ⟨_, rfl, hreport _ _⟩
  | rangeSums ranges =>
    refine Ends.forall_mapM fun r _ => ?_
    dsimp only
    split
    · exact ends_error.2 ⟨_, rfl, hreport _ _⟩
    · exact ends_ok.2 (by omega)

end SampleFilter

/-! ## Moments of filtered samples -/

namespace MomentSums

@[simp] theorem length_samplePairs (first : Tensor ℚ) (second : Option (Tensor ℚ)) (filter1 filter2 : SampleFilter) :
    (samplePairs first second filter1 filter2).length = first.rowCount := by
  simp [samplePairs]

/-- The co-moments of some pairs of samples of these lengths. -/
def comoments (pairs : Pairs) (n k : Nat) : Matrix (Fin n) (Fin k) ℚ :=
  .of fun i j => Exact.comoment (entries pairs i j)

/-- The sums of the values at each position. -/
def totals (values : Nat → List ℚ) (n : Nat) : Fin n → ℚ := fun i => (values i).sum

theorem weighted_twoPass (pairs : Pairs) (n k : Nat) (w : ℚ) : (twoPass pairs n k).weighted w =
    ⟨rowsOf (w • comoments pairs n k), .ofFn (w • totals (firsts pairs) n), .ofFn (w • totals (seconds pairs) k),
      pairs.length * w⟩ := by
  rw [weighted, twoPass, scaleMatrix_range, List.map_map, List.map_map]
  simp only [map_range_eq_ofFn, rowsOf, Function.comp_def, mul_comm _ w]
  rfl

variable {first : Tensor ℚ} {second : Option (Tensor ℚ)} {filter1 filter2 : SampleFilter}

section

variable (h : Defined first second filter1 filter2)
include h

/-- A number of a filtered first sample. -/
theorem Defined.getD_image1 {r : Nat} (hr : r ∈ List.range first.rowCount)
    (i : Fin (filter1.outputLength first.rowWidth)) :
    (filter1.image (first.rowAt r)).getD i 0 =
      ∑ a : Fin first.rowWidth, filter1.coefficient i a * (first.rowAt r).getD a 0 :=
  SampleFilter.getD_image (h.readable1.length_rowAt (List.mem_range.1 hr)) h.within1 i.isLt

/-- A number of a filtered second sample. -/
theorem Defined.getD_image2 {r : Nat} (hr : r ∈ List.range first.rowCount)
    (j : Fin (filter2.outputLength (second.getD first).rowWidth)) :
    (filter2.image ((second.getD first).rowAt r)).getD j 0 =
      ∑ b : Fin (second.getD first).rowWidth, filter2.coefficient j b * ((second.getD first).rowAt r).getD b 0 := by
  rw [← h.rowCount] at hr
  exact SampleFilter.getD_image (h.readable2.length_rowAt (List.mem_range.1 hr)) h.within2 j.isLt

/-- The sums of the filtered first samples. -/
theorem Defined.totals_firsts :
    totals (firsts (samplePairs first second filter1 filter2)) (filter1.outputLength first.rowWidth) =
      filter1.matrix first.rowWidth *ᵥ totals (firsts (samplePairs first second .identity .identity))
        first.rowWidth := by
  ext i
  simp only [totals, firsts, samplePairs, List.map_map, Matrix.mulVec, dotProduct, SampleFilter.matrix_apply]
  rw [← Exact.sum_combination]
  exact congrArg List.sum (List.map_congr_left fun r hr => h.getD_image1 hr i)

/-- The sums of the filtered second samples. -/
theorem Defined.totals_seconds :
    totals (seconds (samplePairs first second filter1 filter2)) (filter2.outputLength (second.getD first).rowWidth) =
      filter2.matrix (second.getD first).rowWidth *ᵥ
        totals (seconds (samplePairs first second .identity .identity)) (second.getD first).rowWidth := by
  ext j
  simp only [totals, seconds, samplePairs, List.map_map, Matrix.mulVec, dotProduct, SampleFilter.matrix_apply]
  rw [← Exact.sum_combination]
  exact congrArg List.sum (List.map_congr_left fun r hr => h.getD_image2 hr j)

/-- The co-moments of the filtered samples. -/
theorem Defined.comoments_eq : comoments (samplePairs first second filter1 filter2)
    (filter1.outputLength first.rowWidth) (filter2.outputLength (second.getD first).rowWidth) =
      filter1.matrix first.rowWidth *
        comoments (samplePairs first second .identity .identity) first.rowWidth (second.getD first).rowWidth *
          (filter2.matrix (second.getD first).rowWidth)ᵀ := by
  have himage : ∀ i j, comoments (samplePairs first second filter1 filter2) (filter1.outputLength first.rowWidth)
      (filter2.outputLength (second.getD first).rowWidth) i j = Exact.comoment ((List.range first.rowCount).map fun r =>
        (∑ a : Fin first.rowWidth, filter1.coefficient i a * (first.rowAt r).getD a 0,
          ∑ b : Fin (second.getD first).rowWidth,
          filter2.coefficient j b * ((second.getD first).rowAt r).getD b 0)) := by
    intro i j
    simp only [comoments, entries, samplePairs, List.map_map, Matrix.of_apply]
    exact congrArg Exact.comoment
      (List.map_congr_left fun r hr => Prod.ext (h.getD_image1 hr i) (h.getD_image2 hr j))
  ext i j
  rw [himage, Exact.comoment_combination, Matrix.mul_assoc]
  simp only [Matrix.mul_apply, Matrix.transpose_apply, SampleFilter.matrix_apply]
  refine Finset.sum_congr rfl fun a _ => congrArg _ (Finset.sum_congr rfl fun b _ => ?_)
  rw [mul_comm]
  simp only [comoments, entries, samplePairs, List.map_map, Matrix.of_apply]
  rfl

end

/-- Takes one pair of rows, each of them filtered. -/
def pushRows (filter1 filter2 : SampleFilter) (m : RunningMoments ℚ) (x y : List ℚ) : Outcome (RunningMoments ℚ) := do
  m.push (← filter1.apply x) (← filter2.apply y)

/-- A pair of rows of which one is too short for its filter ends with a report. -/
theorem pushRows_report {x y : List ℚ} (hnot : ¬ (filter1.Within x.length ∧ filter2.Within y.length))
    (m : RunningMoments ℚ) :
    ∃ r, pushRows filter1 filter2 m x y = .error (.reported r) ∧ r.family = .stats ∧ r.code = "filter_bounds" := by
  have hx := filter1.apply_ends x
  have hy := filter2.apply_ends y
  unfold pushRows
  cases h1 : filter1.apply x with
  | error e =>
    obtain ⟨r, rfl, hr⟩ := hx.error e h1
    exact ⟨r, rfl, hr⟩
  | ok x' =>
    cases h2 : filter2.apply y with
    | error e =>
      obtain ⟨r, rfl, hr⟩ := hy.error e h2
      exact ⟨r, rfl, hr⟩
    | ok y' => exact absurd ⟨hx.ok x' h1, hy.ok y' h2⟩ hnot

/-- The rows are filtered and taken pair by pair. -/
theorem accumulate_eq_foldlM (hfirst : first.Readable) (hsecond : (second.getD first).Readable)
    (hcount : (second.getD first).rowCount = first.rowCount) (w : ℚ) :
    accumulate first second filter1 filter2 w =
      ((List.range first.rowCount).foldlM
        (fun m i => pushRows filter1 filter2 m (first.rowAt i) ((second.getD first).rowAt i))
        (RunningMoments.start (filter1.outputLength first.rowWidth)
          (filter2.outputLength (second.getD first).rowWidth))).map
          fun done => done.finish w := by
  unfold accumulate
  dsimp only
  rw [if_neg (not_not.2 hcount), hfirst.rows_eq, hsecond.rows_eq, hcount, ok_bind, ok_bind, List.zip_map',
    List.foldlM_map]
  rfl

/-- With a filter that reaches past the rows, it ends with a report if there is a row, at the first one. -/
theorem exists_report_iff (hfirst : first.Readable) (hsecond : (second.getD first).Readable)
    (hcount : (second.getD first).rowCount = first.rowCount)
    (hnot : ¬ (filter1.Within first.rowWidth ∧ filter2.Within (second.getD first).rowWidth)) (w : ℚ) :
    (∃ r, accumulate first second filter1 filter2 w = .error (.reported r) ∧ r.family = .stats ∧
      r.code = "filter_bounds") ↔
      0 < first.rowCount := by
  rw [accumulate_eq_foldlM hfirst hsecond hcount]
  constructor
  · rintro ⟨r, hr, -⟩
    by_contra hzero
    rw [Nat.eq_zero_of_not_pos hzero] at hr
    cases hr
  · intro hrows
    have hx := hfirst.length_rowAt hrows
    have hy := hsecond.length_rowAt (hcount ▸ hrows)
    rw [← hx, ← hy] at hnot
    obtain ⟨r, hpush, hr⟩ := pushRows_report hnot
      (RunningMoments.start (filter1.outputLength first.rowWidth) (filter2.outputLength (second.getD first).rowWidth))
    obtain ⟨n, hn⟩ := Nat.exists_eq_succ_of_ne_zero hrows.ne'
    refine ⟨r, ?_, hr⟩
    rw [hn, List.range_succ_eq_map, List.foldlM_cons, hpush]
    rfl

/-- Filtering all samples of two arrays of as many rows, or of one array against itself, and taking their moments is
multiplying the moments of the unfiltered samples by the matrices of the filters, for every weight. A filter that
reaches past the samples is reported exactly if there is a sample. -/
theorem accumulate_filtered (first : Tensor ℚ) (second : Option (Tensor ℚ)) (filter1 filter2 : SampleFilter) (w : ℚ)
    (hfirst : first.Readable) (hsecond : (second.getD first).Readable)
    (hcount : (second.getD first).rowCount = first.rowCount) :
    (∃ (C : Matrix (Fin first.rowWidth) (Fin (second.getD first).rowWidth) ℚ) (s₁ : Fin first.rowWidth → ℚ)
      (s₂ : Fin (second.getD first).rowWidth → ℚ) (count : ℚ),
      accumulate first second .identity .identity w = .ok ⟨rowsOf C, .ofFn s₁, .ofFn s₂, count⟩ ∧
      (filter1.Within first.rowWidth → filter2.Within (second.getD first).rowWidth →
        accumulate first second filter1 filter2 w = .ok ⟨
          rowsOf (filter1.matrix first.rowWidth * C * (filter2.matrix (second.getD first).rowWidth)ᵀ),
          .ofFn (filter1.matrix first.rowWidth *ᵥ s₁),
          .ofFn (filter2.matrix (second.getD first).rowWidth *ᵥ s₂), count⟩)) ∧
    (¬ (filter1.Within first.rowWidth ∧ filter2.Within (second.getD first).rowWidth) →
      ((∃ r, accumulate first second filter1 filter2 w = .error (.reported r) ∧ r.family = .stats ∧
        r.code = "filter_bounds") ↔
        0 < first.rowCount)) := by
  constructor
  · have hplain : Defined first second .identity .identity := ⟨hfirst, hsecond, hcount, trivial, trivial⟩
    refine ⟨w • comoments (samplePairs first second .identity .identity) _ _,
      w • totals (firsts (samplePairs first second .identity .identity)) _,
      w • totals (seconds (samplePairs first second .identity .identity)) _, _,
      (hplain.accumulate_eq w).trans (congrArg _ (weighted_twoPass ..)), fun h1 h2 => ?_⟩
    -- the filtered samples are the matrix applied to the plain ones, and the scale comes out
    have h : Defined first second filter1 filter2 := ⟨hfirst, hsecond, hcount, h1, h2⟩
    rw [h.accumulate_eq, weighted_twoPass, h.comoments_eq, h.totals_firsts, h.totals_seconds, length_samplePairs,
      length_samplePairs, Matrix.mul_smul, Matrix.smul_mul, Matrix.mulVec_smul, Matrix.mulVec_smul]
  · exact fun hnot => exists_report_iff hfirst hsecond hcount hnot w

/-- Three rows of two channels: the second channel twice around the first, against the sum of both channels and an
empty sum; and a channel that is not there. -/
theorem accumulate_picked_and_summed :
    (∃ (C : Matrix (Fin 2) (Fin 2) ℚ) (s₁ s₂ : Fin 2 → ℚ) (count : ℚ),
      accumulate ⟨[3, 2], [1, 2, 3, 4, 5, 9]⟩ none .identity .identity (1 / 2) =
        .ok ⟨rowsOf C, .ofFn s₁, .ofFn s₂, count⟩ ∧
      accumulate ⟨[3, 2], [1, 2, 3, 4, 5, 9]⟩ none (.select [1, 0, 1]) (.rangeSums [(0, 2), (1, 1)]) (1 / 2) = .ok ⟨
        rowsOf ((SampleFilter.select [1, 0, 1]).matrix 2 * C * ((SampleFilter.rangeSums [(0, 2), (1, 1)]).matrix 2)ᵀ),
        .ofFn ((SampleFilter.select [1, 0, 1]).matrix 2 *ᵥ s₁),
        .ofFn ((SampleFilter.rangeSums [(0, 2), (1, 1)]).matrix 2 *ᵥ s₂), count⟩) ∧
    ∃ r, accumulate (⟨[3, 2], [1, 2, 3, 4, 5, 9]⟩ : Tensor ℚ) none (.select [2]) .identity (1 / 2) =
      .error (.reported r) ∧
      r.family = .stats ∧ r.code = "filter_bounds" := by
  have hreadable : (⟨[3, 2], [1, 2, 3, 4, 5, 9]⟩ : Tensor ℚ).Readable := Tensor.WellFormed.readable rfl
  obtain ⟨⟨C, s₁, s₂, count, hplain, hfiltered⟩, -⟩ := accumulate_filtered ⟨[3, 2], [1, 2, 3, 4, 5, 9]⟩ none
    (.select [1, 0, 1]) (.rangeSums [(0, 2), (1, 1)]) (1 / 2) hreadable hreadable rfl
  obtain ⟨-, hreport⟩ := accumulate_filtered ⟨[3, 2], [1, 2, 3, 4, 5, 9]⟩ none (.select [2]) .identity (1 / 2) hreadable
    hreadable rfl
  exact ⟨⟨C, s₁, s₂, count, hplain, hfiltered (by decide) (by decide)⟩, (hreport (by decide)).2 (by decide)⟩

end MomentSums
end ShotTally
