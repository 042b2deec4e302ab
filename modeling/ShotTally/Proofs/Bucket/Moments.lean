/-
Moments of the buckets of files. The samples of a bucket are its rows, flattened and filtered, and the
moments of a file are those of two passes over the pairs of samples of each bucket. Merging file after file
comes to the moments of the pairs of all files, whichever buckets of which files are empty.
-/
import ShotTally.Proofs.Bucket.Places
import ShotTally.Proofs.Bucket.Safety
import ShotTally.Proofs.Statistics.Pooling
import ShotTally.Proofs.Statistics.Samples

namespace ShotTally

open Tensor
open MomentSums (twoPass)

/-! ## Pairs of samples -/

/-- Bucket by bucket, the pairs that the samples of two quantities of a file make row by row; those of the one
quantity have one length, and so have those of the other. -/
structure FileBuckets.PairsUp (m : MomentQuery) (n k : Nat) (first second : FileBuckets ℚ)
    (buckets : List Pairs) : Prop where
  firsts : List.Forall₂ (fun t pairs => t.samples m.filter1 = .ok (pairs.map Prod.fst)) first.rows buckets
  seconds : List.Forall₂ (fun t pairs => t.samples m.filter2 = .ok (pairs.map Prod.snd)) second.rows buckets
  lengths : ∀ pairs ∈ buckets, ∀ p ∈ pairs, p.1.length = n ∧ p.2.length = k
  widths : (∀ t ∈ first.rows, m.filter1.outputLength t.rowWidth = n) ∧
    ∀ t ∈ second.rows, m.filter2.outputLength t.rowWidth = k

/-! ## One bucket -/

/-- What holds of the items of two lists of one length place by place. -/
theorem forall₂_of_zip {α β γ : Type} {R : α → γ → Prop} {S : β → γ → Prop} {as : List α} {bs : List β} {cs : List γ}
    (hlen : as.length = bs.length) (h : List.Forall₂ (fun p c => R p.1 c ∧ S p.2 c) (as.zip bs) cs) :
    List.Forall₂ R as cs ∧ List.Forall₂ S bs cs := by
  constructor
  · rw [← List.map_fst_zip hlen.le]
    exact List.forall₂_map_left_iff.2 (h.imp fun _ _ h => h.1)
  · rw [← List.map_snd_zip hlen.ge]
    exact List.forall₂_map_left_iff.2 (h.imp fun _ _ h => h.2)

section

variable {filter1 filter2 : SampleFilter} {inner inner' : List Nat} {rows rows' : List (List ℚ)} {sum : MomentSums ℚ}

/-- Two arrays have moments when they have as many rows, and then those of the pairs of their samples. -/
theorem MomentSums.exists_pairs_of_accumulate (h : Fits inner rows) (h' : Fits inner' rows')
    (hsum : accumulate (ofRows inner rows) (some (ofRows inner' rows')) filter1 filter2 (Scalar.ofNat 1) = .ok sum) :
    rows.length = rows'.length ∧ ∃ pairs : Pairs,
      filter1.Make filter2 (filter1.outputLength (volume inner)) (filter2.outputLength (volume inner'))
        (rows.zip rows') pairs ∧
      sum = twoPass pairs (filter1.outputLength (volume inner)) (filter2.outputLength (volume inner')) := by
  have hone : (Scalar.ofNat 1 : ℚ) = 1 := Nat.cast_one
  obtain ⟨hlen, _, _, pairs, hrows, hrows', hpairs, rfl⟩ := accumulate_eq_ok.1 hsum
  rw [Option.getD_some, h'.rows_ofRows, Except.ok.injEq] at hrows'
  rw [h.rows_ofRows, Except.ok.injEq] at hrows
  subst hrows hrows'
  rw [hone, weighted_one]
  exact ⟨hlen.symm, pairs, hpairs, rfl⟩

end

/-! ## The buckets of a file -/

namespace FileBuckets

section

variable {α : Type} [Scalar α] (b s : FileBuckets α) (filter1 filter2 : SampleFilter)

/-- The moments of two buckets, flattened. -/
def bucketMoments (t u : Tensor α) : Outcome (MomentSums α) := do
  MomentSums.accumulate (← flattened t) (some (← flattened u)) filter1 filter2 (Scalar.ofNat 1)

theorem momentSums_some : b.momentSums (some s) filter1 filter2 =
    (b.rows.zip s.rows).mapM fun p => bucketMoments filter1 filter2 p.1 p.2 := by
  unfold momentSums
  dsimp only
  rw [List.zip_map_right, List.mapM_map]
  refine congrArg (fun f => (b.rows.zip s.rows).mapM f) (funext fun p => ?_)
  show flattened p.1 >>= (fun first => Option.mapM flattened (some p.2) >>= _) = _
  rw [mapM_some, bucketMoments]
  cases flattened p.2 <;> rfl

/-- A quantity alone is paired with itself. -/
theorem momentSums_self : b.momentSums none filter1 filter2 = b.momentSums (some b) filter1 filter2 := by
  have hzip : b.rows.zip b.rows = b.rows.map fun t => (t, t) := by
    rw [← List.map_id b.rows, List.zip_map', List.map_id]
    rfl
  rw [momentSums_none, momentSums_some, hzip, List.mapM_map]
  refine congrArg (fun f => b.rows.mapM f) (funext fun t => ?_)
  rw [Function.comp_apply, bucketMoments]
  cases flattened t <;> rfl

end

section

variable {filter1 filter2 : SampleFilter} {inner inner' : List Nat} {rows rows' : List (List ℚ)} {sum : MomentSums ℚ}

theorem samples_ofRows (h : Fits inner rows) (filter : SampleFilter) :
    (ofRows inner rows).samples filter = rows.mapM filter.apply := by
  rw [samples, h.rows_ofRows, ok_bind]

/-- The moments of two buckets are those of the pairs of their samples. -/
theorem exists_pairs_of_bucketMoments (h : Fits inner rows) (h' : Fits inner' rows')
    (hsum : bucketMoments filter1 filter2 (ofRows inner rows) (ofRows inner' rows') = .ok sum) :
    ∃ pairs : Pairs, ((ofRows inner rows).samples filter1 = .ok (pairs.map Prod.fst) ∧
      (ofRows inner' rows').samples filter2 = .ok (pairs.map Prod.snd)) ∧
      (∀ p ∈ pairs, p.1.length = filter1.outputLength (volume inner) ∧
        p.2.length = filter2.outputLength (volume inner')) ∧
      sum = twoPass pairs (filter1.outputLength (volume inner)) (filter2.outputLength (volume inner')) := by
  -- a bucket is flattened to rows first, which changes no row
  have hflat : flattened (ofRows inner rows) = .ok (ofRows [volume inner] rows) := h.reshape_ofRows
  have hflat' : flattened (ofRows inner' rows') = .ok (ofRows [volume inner'] rows') := h'.reshape_ofRows
  have hwidth : ∀ width, volume [width] = width := Nat.mul_one
  unfold bucketMoments at hsum
  rw [hflat, hflat', ok_bind, ok_bind] at hsum
  obtain ⟨hlen, pairs, hpairs, rfl⟩ := MomentSums.exists_pairs_of_accumulate h.flat h'.flat hsum
  rw [hwidth, hwidth] at hpairs ⊢
  obtain ⟨hfirsts, hseconds⟩ := forall₂_of_zip (R := fun x (p : List ℚ × List ℚ) => filter1.apply x = .ok p.1)
    (S := fun y (p : List ℚ × List ℚ) => filter2.apply y = .ok p.2) hlen hpairs.samples
  refine ⟨pairs, ⟨?_, ?_⟩, hpairs.lengths, rfl⟩
  · rw [samples_ofRows h]
    exact mapM_eq_ok.2 (List.forall₂_map_right_iff.2 hfirsts)
  · rw [samples_ofRows h']
    exact mapM_eq_ok.2 (List.forall₂_map_right_iff.2 hseconds)

end

variable {m : MomentQuery} {first second : FileBuckets ℚ} {inner inner' : List Nat}
  {tables tables' : List (List (List ℚ))} {sums : List (MomentSums ℚ)}

/-- The moments of a file are those of the pairs of samples of each bucket. -/
theorem Holds.exists_pairs (h1 : first.Holds inner tables) (h2 : second.Holds inner' tables')
    (hlen : tables.length = tables'.length) (h : first.momentSums (some second) m.filter1 m.filter2 = .ok sums) :
    ∃ n k buckets, PairsUp m n k first second buckets ∧ sums = buckets.map fun pairs => twoPass pairs n k := by
  have hbucket : ∀ p ∈ first.rows.zip second.rows, ∀ sum, bucketMoments m.filter1 m.filter2 p.1 p.2 = .ok sum →
      ∃ pairs : Pairs, ((p.1.samples m.filter1 = .ok (pairs.map Prod.fst) ∧
        p.2.samples m.filter2 = .ok (pairs.map Prod.snd)) ∧
        ∀ s ∈ pairs, s.1.length = m.filter1.outputLength (volume inner) ∧
          s.2.length = m.filter2.outputLength (volume inner')) ∧
      sum = twoPass pairs (m.filter1.outputLength (volume inner)) (m.filter2.outputLength (volume inner')) := by
    rintro ⟨t, u⟩ hp sum hsum
    obtain ⟨ht, hu⟩ := List.of_mem_zip hp
    rw [h1.rows] at ht
    rw [h2.rows] at hu
    obtain ⟨rows, hrows, rfl⟩ := List.mem_map.1 ht
    obtain ⟨rows', hrows', rfl⟩ := List.mem_map.1 hu
    obtain ⟨pairs, hsamples, hlengths, rfl⟩ := exists_pairs_of_bucketMoments (h1.fits _ hrows) (h2.fits _ hrows') hsum
    exact ⟨pairs, ⟨hsamples, hlengths⟩, rfl⟩
  -- bucket by bucket, each with its list of pairs
  rw [momentSums_some] at h
  obtain ⟨buckets, hall, rfl⟩ := exists_mapM_described h hbucket
  have hrows : first.rows.length = second.rows.length := by
    rw [h1.rows, h2.rows, List.length_map, List.length_map, hlen]
  obtain ⟨hfirsts, hseconds⟩ := forall₂_of_zip (R := fun t pairs => t.samples m.filter1 = .ok (pairs.map Prod.fst))
    (S := fun u pairs => u.samples m.filter2 = .ok (pairs.map Prod.snd)) hrows (hall.imp fun _ _ h => h.1)
  obtain ⟨hlengths, -⟩ :=
    (List.forall₂_and_left (R := fun _ _ => True) _ _).1 (hall.flip.imp fun _ _ h => ⟨h.2, trivial⟩)
  refine ⟨_, _, buckets, ⟨hfirsts, hseconds, hlengths, ?_, ?_⟩, rfl⟩
  · rw [h1.rows]
    simp [rowWidth_ofRows]
  · rw [h2.rows]
    simp [rowWidth_ofRows]

/-- The lengths of samples do not matter without a bucket. -/
theorem PairsUp.of_length {n k n' k' : Nat} {buckets : List Pairs} (h : PairsUp m n' k' first second buckets)
    (heq : buckets.length = 0 ∨ n = n' ∧ k = k') : PairsUp m n k first second buckets := by
  rcases heq with hnil | ⟨rfl, rfl⟩
  · have hfirst : first.rows = [] := List.length_eq_zero_iff.1 (h.firsts.length_eq.trans hnil)
    have hsecond : second.rows = [] := List.length_eq_zero_iff.1 (h.seconds.length_eq.trans hnil)
    exact ⟨h.firsts, h.seconds, by simp [List.length_eq_zero_iff.1 hnil], by simp [hfirst], by simp [hsecond]⟩
  · exact h

end FileBuckets

/-! ## Files put together -/

/-- The pairs of samples of a bucket in some files, one file after the other. -/
def pairsIn (files : List (List Pairs)) (bucket : Nat) : Pairs := files.flatMap fun buckets => buckets.getD bucket []

/-- The moments of so many buckets by two passes over the pairs of samples of all files. -/
def momentsOver (n k count : Nat) (files : List (List Pairs)) : List (MomentSums ℚ) :=
  (List.range count).map fun bucket => twoPass (pairsIn files bucket) n k

theorem pairsIn_append (files files' : List (List Pairs)) (bucket : Nat) :
    pairsIn (files ++ files') bucket = pairsIn files bucket ++ pairsIn files' bucket := List.flatMap_append

theorem momentsOver_singleton (n k : Nat) (buckets : List Pairs) :
    momentsOver n k buckets.length [buckets] = buckets.map fun pairs => twoPass pairs n k := by
  refine List.ext_getElem (by simp [momentsOver]) fun i hi _ => ?_
  have hlt : i < buckets.length := by simpa [momentsOver] using hi
  simp [momentsOver, pairsIn, List.getD_eq_getElem?_getD, hlt]

namespace Run

variable {n k n' k' count : Nat} {m : MomentQuery}

/-- Merging in one more file: without a bucket there is nothing to merge, else the samples have to have the
same lengths. -/
theorem mergeMoments_over {files : List (List Pairs)} {buckets : List Pairs} (hlen : buckets.length = count)
    {sums : List (MomentSums ℚ)}
    (h : mergeMoments (momentsOver n k count files) (buckets.map fun pairs => twoPass pairs n' k') = .ok sums) :
    (count = 0 ∨ n = n' ∧ k = k') ∧ sums = momentsOver n k count (files ++ [buckets]) := by
  subst hlen
  rw [← momentsOver_singleton] at h
  unfold mergeMoments momentsOver at h
  rw [List.zip_map', List.mapM_map] at h
  have : Nonempty (MomentSums ℚ) := ⟨.zeros 0 0⟩
  obtain ⟨merged, rfl, hmerged, -⟩ := exists_mapM_values h
  -- two sums merge when their sizes agree, and then they are the sums of both
  have hpair : ∀ i ∈ List.range buckets.length, (n = n' ∧ k = k') ∧
      merged i = twoPass (pairsIn files i ++ pairsIn [buckets] i) n k := fun i hi =>
    MomentSums.merge_twoPass.1 (hmerged i hi)
  constructor
  · rcases Nat.eq_zero_or_pos buckets.length with h0 | hpos
    · exact .inl h0
    · exact .inr (hpair 0 (List.mem_range.2 hpos)).1
  · exact List.map_congr_left fun i hi => by rw [(hpair i hi).2, pairsIn_append]

/-- A file, its moments, and the pairs of samples that they are the moments of. -/
def HasMoments (m : MomentQuery) (count : Nat) (f : FileBuckets ℚ × FileBuckets ℚ)
    (sums : List (MomentSums ℚ)) : Prop :=
  ∃ n k buckets, f.1.PairsUp m n k f.2 buckets ∧ buckets.length = count ∧
    sums = buckets.map fun pairs => twoPass pairs n k

/-- Merging file after file comes to the moments of the pairs of all files. -/
theorem foldlM_mergeMoments {files : List (FileBuckets ℚ × FileBuckets ℚ)} {others : List (List (MomentSums ℚ))}
    (h : List.Forall₂ (HasMoments m count) files others) : ∀ {before : List (List Pairs)} {sums : List (MomentSums ℚ)},
    others.foldlM mergeMoments (momentsOver n k count before) = .ok sums → ∃ pairs,
      List.Forall₂ (fun f buckets => f.1.PairsUp m n k f.2 buckets ∧ buckets.length = count) files pairs ∧
      sums = momentsOver n k count (before ++ pairs) := by
  induction h with
  | nil =>
    rintro before sums ⟨⟩
    exact ⟨[], .nil, by rw [List.append_nil]⟩
  | cons hfile _ ih =>
    intro before sums hsums
    obtain ⟨n', k', buckets, hpairs, hlen, rfl⟩ := hfile
    obtain ⟨merged, hmerged, hsums⟩ := bind_eq_ok.1 (List.foldlM_cons.symm.trans hsums)
    obtain ⟨heq, rfl⟩ := mergeMoments_over hlen hmerged
    obtain ⟨pairs, hall, rfl⟩ := ih hsums
    refine ⟨buckets :: pairs, .cons ⟨hpairs.of_length (by rwa [hlen]), hlen⟩ hall, ?_⟩
    rw [List.append_assoc, List.singleton_append]

/-- What the moments of the files, the first of them and then the others, come to. -/
theorem exists_pairs_of_merge {files : List (FileBuckets ℚ × FileBuckets ℚ)} {first : List (MomentSums ℚ)}
    {others : List (List (MomentSums ℚ))} (h : List.Forall₂ (HasMoments m count) files (first :: others))
    {sums : List (MomentSums ℚ)} (hsums : others.foldlM mergeMoments first = .ok sums) : ∃ n k pairs,
      List.Forall₂ (fun f buckets => f.1.PairsUp m n k f.2 buckets ∧ buckets.length = count) files pairs ∧
      sums = momentsOver n k count pairs := by
  cases h with
  | cons hfirst hothers =>
    obtain ⟨n, k, buckets, hpairs, rfl, rfl⟩ := hfirst
    rw [← momentsOver_singleton] at hsums
    obtain ⟨pairs, hall, rfl⟩ := foldlM_mergeMoments hothers hsums
    exact ⟨n, k, buckets :: pairs, .cons ⟨hpairs, rfl⟩ hall, rfl⟩

end Run
end ShotTally
