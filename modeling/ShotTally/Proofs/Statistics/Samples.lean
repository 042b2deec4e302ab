/-
Moments of the rows of two arrays. Each array has its own filter, and a filter that stays within the rows
makes a sample of every row. In one pass over the pairs of samples, for any weight that every pair has, the
sums come to the sums of the samples and to the co-moments around the means over all pairs.
-/
import ShotTally.Proofs.Statistics.TwoPass
import ShotTally.Proofs.Tensor.RowView

namespace ShotTally

open MomentSums (firsts seconds entries twoPass)

/-- The pairs of samples of a bucket. -/
abbrev Pairs := List (List ℚ × List ℚ)

/-- The samples of an array: its rows, each of them filtered. -/
def Tensor.samples {α : Type} [Scalar α] (t : Tensor α) (filter : SampleFilter) : Outcome (List (List α)) := do
  (← t.rows).mapM filter.apply

/-! ## Filters -/

namespace SampleFilter

/-- The filter reads no channel past a sample of this length. -/
def Within (length : Nat) : SampleFilter → Prop
  | .identity => True
  | .select indices => ∀ i ∈ indices, i < length
  | .rangeSums ranges => ∀ r ∈ ranges, r.1 ≤ r.2 ∧ r.2 ≤ length

instance (length : Nat) (filter : SampleFilter) : Decidable (filter.Within length) := by
  cases filter <;> unfold Within <;> infer_instance

/-- What the filter makes of a sample that it stays within. -/
def image {α : Type} [Scalar α] (sample : List α) : SampleFilter → List α
  | .identity => sample
  | .select indices => indices.map fun i => sample.getD i Scalar.zero
  | .rangeSums ranges => ranges.map fun r => Scalar.sum ((sample.drop r.1).take (r.2 - r.1))

section

variable {α : Type} [Scalar α] {sample : List α} {filter : SampleFilter}

theorem apply_eq (h : filter.Within sample.length) : filter.apply sample = .ok (filter.image sample) := by
  cases filter with
  | identity => rfl
  | select indices =>
    refine mapM_ok_of_mem fun i hi => ?_
    have hlt : i < sample.length := h i hi
    simp [List.getD_eq_getElem?_getD, hlt]
  | rangeSums ranges =>
    refine mapM_ok_of_mem fun r hr => ?_
    obtain ⟨hle, hend⟩ := h r hr
    exact if_neg (by omega)

theorem length_image (sample : List α) (filter : SampleFilter) :
    (filter.image sample).length = filter.outputLength sample.length := by
  cases filter <;> simp [image, outputLength]

/-- A filter within the rows of an array makes a sample of each of them. -/
theorem samples_eq {t : Tensor α} (ht : t.Readable) (h : filter.Within t.rowWidth) :
    t.samples filter = .ok ((List.range t.rowCount).map fun i => filter.image (t.rowAt i)) := by
  unfold Tensor.samples
  rw [ht.rows_eq, ok_bind, List.mapM_map]
  refine mapM_ok_of_mem fun i hi => apply_eq ?_
  rwa [ht.length_rowAt (List.mem_range.1 hi)]

end

/-- Pairs of samples that the filters make of pairs of rows. -/
structure Make (filter1 filter2 : SampleFilter) (n k : Nat) (rows pairs : Pairs) : Prop where
  samples : List.Forall₂ (fun r p => filter1.apply r.1 = .ok p.1 ∧ filter2.apply r.2 = .ok p.2) rows pairs
  lengths : ∀ p ∈ pairs, p.1.length = n ∧ p.2.length = k

end SampleFilter

/-! ## One pass over the rows -/

namespace RunningMoments

variable {filter1 filter2 : SampleFilter} {n k : Nat}

/-- Rows that are filtered and taken one pair after another come to the moments of their pairs of samples. -/
theorem foldlM_filtered {rows : Pairs} {m : RunningMoments ℚ} :
    rows.foldlM (fun (m : RunningMoments ℚ) (x, y) =>
      do m.push (← filter1.apply x) (← filter2.apply y)) (start n k) = .ok m ↔
      ∃ pairs, filter1.Make filter2 n k rows pairs ∧ m = after n k pairs := by
  constructor
  · have hstart : ∃ pairs, filter1.Make filter2 n k [] pairs ∧ (start n k : RunningMoments ℚ) = after n k pairs :=
      ⟨[], ⟨.nil, by simp⟩, start_eq n k⟩
    refine foldlM_prefix
      (P := fun rows m => ∃ pairs, filter1.Make filter2 n k rows pairs ∧ m = after n k pairs) ?_ hstart
    rintro done ⟨x, y⟩ _ m' ⟨pairs, hpairs, rfl⟩ hm
    obtain ⟨x', hx, hm⟩ := bind_eq_ok.1 hm
    obtain ⟨y', hy, hm⟩ := bind_eq_ok.1 hm
    obtain ⟨hlen, rfl⟩ := push_after.1 hm
    refine ⟨pairs ++ [(x', y')], ⟨List.rel_append hpairs.samples (.cons ⟨hx, hy⟩ .nil), ?_⟩, rfl⟩
    simp only [List.mem_append, List.mem_singleton]
    rintro p (hp | rfl)
    · exact hpairs.lengths p hp
    · exact hlen
  · rintro ⟨pairs, ⟨hsamples, hlengths⟩, rfl⟩
    rw [start_eq]
    -- the samples that were pushed already are carried along
    suffices h : ∀ done,
      rows.foldlM (fun (m : RunningMoments ℚ) (x, y) => do m.push (← filter1.apply x) (← filter2.apply y))
        (after n k done) = .ok (after n k (done ++ pairs)) from h []
    induction hsamples with
    | nil =>
      intro done
      rw [List.append_nil]
      rfl
    | @cons row p rows pairs hrow _ ih =>
      intro done
      have hpush : (after n k done).push p.1 p.2 = .ok (after n k (done ++ [(p.1, p.2)])) :=
        push_after.2 ⟨hlengths p (by simp), rfl⟩
      rw [List.foldlM_cons]
      dsimp only
      rw [hrow.1, ok_bind, hrow.2, ok_bind, hpush, ok_bind, ih fun p hp => hlengths p (by simp [hp]),
        List.append_assoc]
      rfl

end RunningMoments

namespace MomentSums

variable {first : Tensor ℚ} {second : Option (Tensor ℚ)} {filter1 filter2 : SampleFilter}

/-- There are sums when the arrays have as many rows and the filters make samples of them, and then those of
two passes over the pairs of samples. -/
theorem accumulate_eq_ok {w : ℚ} {m : MomentSums ℚ} : accumulate first second filter1 filter2 w = .ok m ↔
    (second.getD first).rowCount = first.rowCount ∧ ∃ rows rows' pairs, first.rows = .ok rows ∧
      (second.getD first).rows = .ok rows' ∧ filter1.Make filter2 (filter1.outputLength first.rowWidth)
        (filter2.outputLength (second.getD first).rowWidth) (rows.zip rows') pairs ∧
      m = (twoPass pairs (filter1.outputLength first.rowWidth)
        (filter2.outputLength (second.getD first).rowWidth)).weighted w := by
  unfold accumulate
  dsimp only
  by_cases hcount : (second.getD first).rowCount = first.rowCount
  case neg =>
    rw [if_pos hcount]
    exact ⟨fun h => (by cases h), fun h => absurd h.1 hcount⟩
  rw [if_neg (not_not.2 hcount)]
  simp only [hcount, true_and, bind_eq_ok, pure_eq_ok, Except.ok.injEq, RunningMoments.foldlM_filtered]
  constructor
  · rintro ⟨rows, hrows, rows', hrows', -, ⟨pairs, hpairs, rfl⟩, rfl⟩
    exact ⟨rows, rows', pairs, hrows, hrows', hpairs, RunningMoments.finish_after _ _ pairs w⟩
  · rintro ⟨rows, rows', pairs, hrows, hrows', hpairs, rfl⟩
    exact ⟨rows, hrows, rows', hrows', _, ⟨pairs, hpairs, rfl⟩, RunningMoments.finish_after _ _ pairs w⟩

/-! ## Samples of every row -/

/-- The arrays can be read and have as many rows, and each filter stays within the rows of its array. -/
structure Defined (first : Tensor ℚ) (second : Option (Tensor ℚ)) (filter1 filter2 : SampleFilter) : Prop where
  readable1 : first.Readable
  readable2 : (second.getD first).Readable
  rowCount : (second.getD first).rowCount = first.rowCount
  within1 : filter1.Within first.rowWidth
  within2 : filter2.Within (second.getD first).rowWidth

/-- The pairs of samples that the filters make of the rows. -/
def samplePairs (first : Tensor ℚ) (second : Option (Tensor ℚ)) (filter1 filter2 : SampleFilter) : Pairs :=
  (List.range first.rowCount).map fun i => (filter1.image (first.rowAt i), filter2.image ((second.getD first).rowAt i))

namespace Defined

theorem samples1 (h : Defined first second filter1 filter2) :
    first.samples filter1 = .ok ((samplePairs first second filter1 filter2).map Prod.fst) := by
  rw [SampleFilter.samples_eq h.readable1 h.within1, samplePairs, List.map_map]
  rfl

theorem samples2 (h : Defined first second filter1 filter2) :
    (second.getD first).samples filter2 = .ok ((samplePairs first second filter1 filter2).map Prod.snd) := by
  rw [SampleFilter.samples_eq h.readable2 h.within2, h.rowCount, samplePairs, List.map_map]
  rfl

/-- The filters make the pairs of samples of the pairs of rows. -/
theorem make (h : Defined first second filter1 filter2) :
    filter1.Make filter2 (filter1.outputLength first.rowWidth) (filter2.outputLength (second.getD first).rowWidth)
      ((List.range first.rowCount).map fun i => (first.rowAt i, (second.getD first).rowAt i))
      (samplePairs first second filter1 filter2) := by
  have hlen1 : ∀ i ∈ List.range first.rowCount, (first.rowAt i).length = first.rowWidth := fun i hi =>
    h.readable1.length_rowAt (List.mem_range.1 hi)
  have hlen2 : ∀ i ∈ List.range first.rowCount, ((second.getD first).rowAt i).length = (second.getD first).rowWidth :=
    fun i hi => h.readable2.length_rowAt (by rwa [h.rowCount, ← List.mem_range])
  constructor
  · rw [samplePairs, List.forall₂_map_left_iff, List.forall₂_map_right_iff, List.forall₂_same]
    intro i hi
    exact ⟨SampleFilter.apply_eq (by rw [hlen1 i hi]; exact h.within1),
      SampleFilter.apply_eq (by rw [hlen2 i hi]; exact h.within2)⟩
  · intro p hp
    obtain ⟨i, hi, rfl⟩ := List.mem_map.1 hp
    rw [SampleFilter.length_image, SampleFilter.length_image, hlen1 i hi, hlen2 i hi]
    exact ⟨rfl, rfl⟩

/-- There are sums for every weight, those of two passes over the pairs of samples. -/
theorem accumulate_eq (h : Defined first second filter1 filter2) (w : ℚ) : accumulate first second filter1 filter2 w =
    .ok ((twoPass (samplePairs first second filter1 filter2) (filter1.outputLength first.rowWidth)
      (filter2.outputLength (second.getD first).rowWidth)).weighted w) := by
  refine accumulate_eq_ok.2 ⟨h.rowCount, _, _, _, h.readable1.rows_eq, h.readable2.rows_eq, ?_, rfl⟩
  rw [h.rowCount, List.zip_map']
  exact h.make

end Defined

/-- Two arrays that can be read, with as many rows and with filters within the rows, or one such array against
itself, have sums for every weight, zero and negative ones included: the number of the pairs, the sums of the
entries, and the sums of the products of the deviations from the means over all pairs count as often as the
weight says. Without a row all of them are zero. -/
theorem accumulate_eq_two_passes (first : Tensor ℚ) (second : Option (Tensor ℚ))
    (filter1 filter2 : SampleFilter) (w : ℚ) (h : Defined first second filter1 filter2) : ∃ pairs : Pairs,
      (first.samples filter1 = .ok (pairs.map Prod.fst) ∧
        (second.getD first).samples filter2 = .ok (pairs.map Prod.snd) ∧
        pairs.length = first.rowCount) ∧
      accumulate first second filter1 filter2 w = .ok {
        covarianceSum := (List.range (filter1.outputLength first.rowWidth)).map fun i =>
          (List.range (filter2.outputLength (second.getD first).rowWidth)).map fun j =>
            (pairs.map fun p => (p.1.getD i 0 - Exact.mean (firsts pairs i)) *
              (p.2.getD j 0 - Exact.mean (seconds pairs j))).sum * w
        sum1 := (List.range (filter1.outputLength first.rowWidth)).map fun i => (firsts pairs i).sum * w
        sum2 := (List.range (filter2.outputLength (second.getD first).rowWidth)).map fun j => (seconds pairs j).sum * w
        count := first.rowCount * w } ∧
      (first.rowCount = 0 → accumulate first second filter1 filter2 w =
        .ok (zeros (filter1.outputLength first.rowWidth) (filter2.outputLength (second.getD first).rowWidth))) := by
  have hcount : (samplePairs first second filter1 filter2).length = first.rowCount := by simp [samplePairs]
  -- the running comoment is written as a sum over the pairs around the two means
  have hcomoment : ∀ (pairs : Pairs) i j, Exact.comoment (entries pairs i j) = (pairs.map fun p =>
      (p.1.getD i 0 - Exact.mean (firsts pairs i)) * (p.2.getD j 0 - Exact.mean (seconds pairs j))).sum :=
        fun pairs i j => by
    rw [Exact.comoment, map_fst_entries, map_snd_entries, entries, List.map_map]
    rfl
  refine ⟨samplePairs first second filter1 filter2, ⟨h.samples1, h.samples2, hcount⟩, ?_, fun hzero => ?_⟩
  · rw [h.accumulate_eq, weighted, twoPass, scaleMatrix_range, List.map_map, List.map_map]
    simp only [hcomoment, hcount, Function.comp_def]
  · rw [h.accumulate_eq, List.length_eq_zero_iff.1 (hcount.trans hzero), twoPass_nil, weighted_zeros]

/-- Three rows of two channels against the sums of both channels, each pair with weight one half. -/
theorem accumulate_three_rows :
    accumulate (⟨[3, 2], [1, 2, 3, 4, 5, 9]⟩ : Tensor ℚ) none .identity (.rangeSums [(0, 2)]) (1 / 2) =
      .ok ⟨[[11], [20]], [9 / 2, 15 / 2], [12], 3 / 2⟩ := by
  have hreadable : (⟨[3, 2], [1, 2, 3, 4, 5, 9]⟩ : Tensor ℚ).Readable := Tensor.WellFormed.readable rfl
  obtain ⟨pairs, ⟨hfirst, hsecond, -⟩, heq, -⟩ := accumulate_eq_two_passes ⟨[3, 2], [1, 2, 3, 4, 5, 9]⟩ none .identity
    (.rangeSums [(0, 2)]) (1 / 2) ⟨hreadable, hreadable, rfl, trivial, by decide⟩
  have hpairs : pairs = [([1, 2], [3]), ([3, 4], [7]), ([5, 9], [14])] := by
    have hx : pairs.map Prod.fst = [[1, 2], [3, 4], [5, 9]] := Except.ok.inj (hfirst.symm.trans rfl)
    have hy : pairs.map Prod.snd = [[3], [7], [14]] := Except.ok.inj (hsecond.symm.trans (by decide +kernel))
    rw [← List.zip_unzip pairs, List.unzip_eq_map, hx, hy]
    rfl
  rw [heq, hpairs]
  decide +kernel

end MomentSums
end ShotTally
