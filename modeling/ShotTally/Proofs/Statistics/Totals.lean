/-
Averages from sums over the rows of each bucket. Combining them in any order and with any bracketing gives the
average from the sums and the counts added up, as long as nothing is summed where there is no row: a bucket
without weight then holds zeros and leaves the bucket it is combined with as it is.
-/
import ShotTally.Proofs.Number.Exact
import ShotTally.Proofs.Statistics.Blocks
import ShotTally.Proofs.Statistics.Bracketing
import ShotTally.Proofs.Tensor.RowView

namespace ShotTally

open Tensor (Fits)
open WeightedAverage (ofBlocks combine fold)

/-! ## Numbers in rows -/

/-- Numbering the places of a table row by row. -/
theorem map_range_mul {β : Type} (f : Nat → β) (width : Nat) : ∀ n : Nat, (List.range (n * width)).map f =
    (List.range n).flatMap fun i => (List.range width).map fun j => f (i * width + j)
  | 0 => by rw [Nat.zero_mul]; rfl
  | n + 1 => by
    rw [Nat.succ_mul, List.range_add, List.map_append, map_range_mul f width n, List.map_map, List.range_succ,
      List.flatMap_append, List.flatMap_singleton]
    rfl

/-! ## The blocks of an average -/

namespace WeightedAverage

/-- The numbers of one bucket, and its weight. -/
def blockAt (a : WeightedAverage ℚ) (bucket : Nat) : List ℚ × ℚ :=
  ((a.average.data.drop (bucket * volume a.dataShape)).take (volume a.dataShape), a.weights.data.getD bucket 0)

theorem blockAt_ofBlocks {bucketShape inner : List Nat} {f : Nat → List ℚ × ℚ} {n bucket : Nat}
    (hf : ∀ i < n, (f i).1.length = volume inner) (hb : bucket < n) :
    (ofBlocks bucketShape inner ((List.range n).map f)).blockAt bucket = f bucket := by
  have hshape : (ofBlocks bucketShape inner ((List.range n).map f)).dataShape = inner := List.drop_left
  have hfits : Fits inner ((List.range n).map fun i => (f i).1) := by
    intro row hrow
    obtain ⟨i, hi, rfl⟩ := List.mem_map.1 hrow
    exact hf i (List.mem_range.1 hi)
  have hget : ((List.range n).map fun i => (f i).1).drop bucket =
      (f bucket).1 :: ((List.range n).map fun i => (f i).1).drop (bucket + 1) := by
    rw [List.drop_eq_getElem_cons (by simpa using hb), List.getElem_map, List.getElem_range]
  unfold blockAt
  rw [hshape]
  dsimp only [ofBlocks]
  rw [List.flatMap_map, List.flatMap_def, hfits.drop_flatten, hget, List.flatten_cons, List.take_left' (hf bucket hb)]
  simp [List.getD_eq_getElem?_getD, hb]

end WeightedAverage

/-! ## Sums and counts -/

/-- The sums over the rows of each bucket, and the number of rows of each bucket. -/
structure BucketTotals where
  sums : Tensor ℚ
  counts : List ℚ

namespace BucketTotals

/-- The average from sums and counts. -/
def average (bucketShape : List Nat) (t : BucketTotals) : Outcome (WeightedAverage ℚ) :=
  WeightedAverage.ofSums bucketShape t.sums t.counts

/-- The sum at one place. -/
def sumAt (t : BucketTotals) (place : Nat) : ℚ := t.sums.data.getD place 0

/-- The count of one bucket. -/
def countAt (t : BucketTotals) (bucket : Nat) : ℚ := t.counts.getD bucket 0

/-- The sums have the axes of the buckets followed by those of the data, with a count for each bucket that is not
negative; without a row nothing is summed. -/
structure Sound (bucketShape inner : List Nat) (t : BucketTotals) : Prop where
  shape : t.sums.shape = bucketShape ++ inner
  wellFormed : t.sums.WellFormed
  length : t.counts.length = volume bucketShape
  nonneg : ∀ bucket < volume bucketShape, 0 ≤ t.countAt bucket
  nothing : ∀ bucket < volume bucketShape, t.countAt bucket = 0 →
    ∀ j < volume inner, t.sumAt (bucket * volume inner + j) = 0

/-- The sums and the counts of all of some parts. -/
def total (bucketShape inner : List Nat) (parts : List BucketTotals) : BucketTotals where
  sums := ⟨bucketShape ++ inner, (List.range (volume (bucketShape ++ inner))).map fun place =>
    (parts.map (·.sumAt place)).sum⟩
  counts := (List.range (volume bucketShape)).map fun bucket => (parts.map (·.countAt bucket)).sum

/-- The average of one bucket over some parts, and its weight. -/
def blockOver (width : Nat) (parts : List BucketTotals) (bucket : Nat) : List ℚ × ℚ :=
  ((List.range width).map fun j =>
    (parts.map (·.sumAt (bucket * width + j))).sum / Scalar.divisor (parts.map (·.countAt bucket)).sum,
    (parts.map (·.countAt bucket)).sum)

variable {bucketShape inner : List Nat} {t : BucketTotals} {parts parts' : List BucketTotals} {bucket j : Nat}

theorem length_blockOver (width : Nat) (parts : List BucketTotals) (bucket : Nat) :
    (blockOver width parts bucket).1.length = width := by
  simp [blockOver]

/-- The average from all sums and counts, bucket by bucket. -/
theorem average_total (bucketShape inner : List Nat) (parts : List BucketTotals) :
    (total bucketShape inner parts).average bucketShape =
      .ok (ofBlocks bucketShape inner ((List.range (volume bucketShape)).map (blockOver (volume inner) parts))) := by
  have hwidth : ∀ bucket ∈ List.range (volume bucketShape), ((List.range (volume inner)).map fun j =>
      (parts.map (·.sumAt (bucket * volume inner + j))).sum).length =
        volume bucketShape * volume inner / volume bucketShape := by
    intro bucket hb
    rw [List.length_map, List.length_range, Nat.mul_div_cancel_left _ (Nat.zero_lt_of_lt (List.mem_range.1 hb))]
  unfold average total WeightedAverage.ofSums
  dsimp only
  rw [if_neg (by simp), Tensor.size, List.length_map, List.length_range, volume_append, map_range_mul,
    divideBuckets_flatMap hwidth]
  simp only [ofBlocks, blockOver, List.flatMap_map, List.map_map, Function.comp_def]

/-- Sums and counts alone are their total. -/
theorem Sound.total_singleton (h : t.Sound bucketShape inner) : total bucketShape inner [t] = t := by
  have hsize : t.sums.data.length = volume (bucketShape ++ inner) := h.shape ▸ h.wellFormed
  have hsums : (List.range (volume (bucketShape ++ inner))).map t.sumAt = t.sums.data := by
    rw [← hsize]
    exact (eq_range_getD _).symm
  have hcounts : (List.range (volume bucketShape)).map t.countAt = t.counts := by
    rw [← h.length]
    exact (eq_range_getD _).symm
  unfold total
  simp only [List.map_singleton, List.sum_singleton, hsums, hcounts]
  rw [← h.shape]

/-! ## Combining -/

/-- Without a row in any of the parts, nothing is summed. -/
theorem sum_eq_zero (h : ∀ t ∈ parts, t.Sound bucketShape inner) (hb : bucket < volume bucketShape)
    (hzero : (parts.map (·.countAt bucket)).sum = 0) (hj : j < volume inner) :
    (parts.map (·.sumAt (bucket * volume inner + j))).sum = 0 := by
  have hcounts := Exact.eq_zero_of_sum (fun t ht => (h t ht).nonneg bucket hb) hzero
  refine List.sum_eq_zero fun x hx => ?_
  obtain ⟨t, ht, rfl⟩ := List.mem_map.1 hx
  exact (h t ht).nothing bucket hb (hcounts t ht) j hj

/-- The averages of one bucket over some parts and over some others combine to that over all of them. -/
theorem combineBlock_blockOver (h : ∀ t ∈ parts, t.Sound bucketShape inner)
    (h' : ∀ t ∈ parts', t.Sound bucketShape inner) (hb : bucket < volume bucketShape) :
    combineBlock (blockOver (volume inner) parts bucket) (blockOver (volume inner) parts' bucket) =
      blockOver (volume inner) (parts ++ parts') bucket := by
  unfold combineBlock blockOver
  rw [List.zipWith_map, List.zipWith_self, List.map_append, List.sum_append]
  refine congrArg (·, _) (List.map_congr_left fun j hj => ?_)
  unfold WeightedAverage.meanOf
  rw [Exact.div_divisor_mul fun hzero => sum_eq_zero h hb hzero (List.mem_range.1 hj),
    Exact.div_divisor_mul fun hzero => sum_eq_zero h' hb hzero (List.mem_range.1 hj), List.map_append, List.sum_append]

/-- The average over some parts. -/
def averageOver (bucketShape inner : List Nat) (parts : List BucketTotals) : WeightedAverage ℚ :=
  ofBlocks bucketShape inner ((List.range (volume bucketShape)).map (blockOver (volume inner) parts))

/-- Averages that are combined are the average from all sums and counts. -/
theorem hasTotals (bucketShape inner : List Nat) :
    HasTotals (average bucketShape) combine (Sound bucketShape inner) (averageOver bucketShape inner) where
  value t ht := by
    rw [averageOver, ← average_total, ht.total_singleton]
  combine parts parts' h h' := by
    refine (WeightedAverage.combine_ofBlocks (fun _ _ => length_blockOver _ _ _) fun _ _ =>
      length_blockOver _ _ _).2 ⟨rfl, ?_⟩
    exact congrArg _ (List.map_congr_left fun bucket hb => (combineBlock_blockOver h h' (List.mem_range.1 hb)).symm)
  perm parts parts' hperm := by
    unfold averageOver blockOver
    simp only [(hperm.map _).sum_eq]

/-! ## Folding -/

/-- The averages of some parts, folded in their order. -/
def folded (bucketShape : List Nat) (parts : List BucketTotals) : Outcome (Option (WeightedAverage ℚ)) := do
  fold (← parts.mapM (average bucketShape))

/-- Averages over some groups of parts are folded to the average over all of them. -/
theorem fold_groups {groups : List (List BucketTotals)} (h : ∀ t ∈ groups.flatten, t.Sound bucketShape inner) :
    fold (groups.map (averageOver bucketShape inner)) =
      .ok (if groups = [] then none else some (averageOver bucketShape inner groups.flatten)) := by
  cases groups with
  | nil => rfl
  | cons first groups =>
    rw [List.map_cons, fold, (hasTotals bucketShape inner).foldlM_groups h, map_ok, if_neg (List.cons_ne_nil _ _),
      List.flatten_cons]

theorem folded_eq (h : ∀ t ∈ parts, t.Sound bucketShape inner) :
    folded bucketShape parts = .ok (if parts = [] then none else some (averageOver bucketShape inner parts)) := by
  have hflat : (parts.map fun t => [t]).flatten = parts := by
    rw [← List.flatMap_def, List.flatMap_singleton']
  have hnil : (parts.map fun t => [t]) = [] ↔ parts = [] := List.map_eq_nil_iff
  have hmap : parts.map (fun t => averageOver bucketShape inner [t]) =
      (parts.map fun t => [t]).map (averageOver bucketShape inner) := by
    rw [List.map_map]
    rfl
  rw [folded, mapM_ok_of_mem fun t ht => (hasTotals bucketShape inner).value t (h t ht), ok_bind, hmap,
    fold_groups (by rwa [hflat]), hflat]
  simp only [hnil]

/-- The parts in groups, each group folded and then what the groups come to. -/
theorem fold_folded {groups : List (List BucketTotals)} (h : ∀ t ∈ groups.flatten, t.Sound bucketShape inner) :
    (do fold ((← groups.mapM (folded bucketShape)).filterMap id)) =
      .ok (if groups.flatten = [] then none else some (averageOver bucketShape inner groups.flatten)) := by
  have hgroup : ∀ parts ∈ groups, folded bucketShape parts =
      .ok (if parts = [] then none else some (averageOver bucketShape inner parts)) := fun parts hparts =>
    folded_eq fun t ht => h t (List.mem_flatten_of_mem hparts ht)
  have hpresent : (groups.map fun parts =>
    if parts = [] then none else some (averageOver bucketShape inner parts)).filterMap id =
      (groups.filter (· ≠ [])).map (averageOver bucketShape inner) := by
    rw [List.filterMap_map, ← List.filterMap_eq_map, List.filterMap_filter]
    refine List.filterMap_congr fun parts _ => ?_
    by_cases hnil : parts = [] <;> simp [hnil]
  have hflat : (groups.filter (· ≠ [])).flatten = groups.flatten := List.flatten_filter_ne_nil
  have hnil : groups.filter (· ≠ []) = [] ↔ groups.flatten = [] := by
    simp [List.filter_eq_nil_iff, List.flatten_eq_nil_iff]
  rw [mapM_ok_of_mem hgroup, ok_bind, hpresent, fold_groups (by rwa [hflat]), hflat]
  simp only [hnil]

/-! ## Buckets without weight -/

/-- A part without a row of the bucket adds nothing to the average of the bucket over other parts. -/
theorem blockOver_append_of_zero (h : ∀ t ∈ parts, t.Sound bucketShape inner) (hb : bucket < volume bucketShape)
    (hzero : (parts.map (·.countAt bucket)).sum = 0) (parts' : List BucketTotals) :
    blockOver (volume inner) (parts ++ parts') bucket = blockOver (volume inner) parts' bucket := by
  unfold blockOver
  rw [List.map_append, List.sum_append, hzero, zero_add]
  refine congrArg (·, _) (List.map_congr_left fun j hj => ?_)
  rw [List.map_append, List.sum_append, sum_eq_zero h hb hzero (List.mem_range.1 hj), zero_add]

theorem blockAt_averageOver (hb : bucket < volume bucketShape) :
    (averageOver bucketShape inner parts).blockAt bucket = blockOver (volume inner) parts bucket :=
  WeightedAverage.blockAt_ofBlocks (fun _ _ => length_blockOver _ _ _) hb

/-- A bucket without weight leaves the bucket that it is combined with as it is. -/
theorem combine_without_weight {a b v : WeightedAverage ℚ}
    (ha : Produced (average bucketShape) combine (Sound bucketShape inner) a)
    (hb : Produced (average bucketShape) combine (Sound bucketShape inner) b) (hv : a.combine b = .ok v)
    (hbucket : bucket < volume bucketShape) :
    ((a.blockAt bucket).2 = 0 → v.blockAt bucket = b.blockAt bucket) ∧
      ((b.blockAt bucket).2 = 0 → v.blockAt bucket = a.blockAt bucket) := by
  have htotals := hasTotals bucketShape inner
  obtain ⟨l, hl, rfl⟩ := htotals.exists_items ha
  obtain ⟨m, hm, rfl⟩ := htotals.exists_items hb
  obtain rfl : averageOver bucketShape inner (l ++ m) = v := Except.ok.inj ((htotals.combine l m hl hm).symm.trans hv)
  constructor
  · intro hzero
    rw [blockAt_averageOver hbucket] at hzero ⊢
    rw [blockOver_append_of_zero hl hbucket hzero, blockAt_averageOver hbucket]
  · intro hzero
    rw [htotals.perm _ _ List.perm_append_comm]
    rw [blockAt_averageOver hbucket] at hzero ⊢
    rw [blockOver_append_of_zero hm hbucket hzero, blockAt_averageOver hbucket]

/-- For averages from sums and counts of buckets and data of one shape, with counts that are not negative and
nothing summed without a row: combining them in any order and with any bracketing gives the average from all sums
and all counts added up, place by place and bucket by bucket. Combining what can be so produced is commutative
and associative, a bucket without weight leaves the bucket that it is combined with as it is, and folding comes
to the same average whatever the order of the parts and however they are grouped. -/
theorem combine_any_way (bucketShape inner : List Nat) :
    (∀ parts : List BucketTotals, (∀ t ∈ parts, t.Sound bucketShape inner) →
      ∃ v, WeightedAverage.ofSums bucketShape
          ⟨bucketShape ++ inner, (List.range (volume (bucketShape ++ inner))).map fun place =>
            (parts.map fun t : BucketTotals => t.sums.data.getD place 0).sum⟩
          ((List.range (volume bucketShape)).map fun bucket =>
            (parts.map fun t : BucketTotals => t.counts.getD bucket 0).sum) =
            .ok v ∧
        (∀ t : Bracketing BucketTotals, t.items.Perm parts → t.result (average bucketShape) combine = .ok v) ∧
        (parts ≠ [] → ∀ groups : List (List BucketTotals), groups.flatten.Perm parts →
          folded bucketShape groups.flatten = .ok (some v) ∧
          (do fold ((← groups.mapM (folded bucketShape)).filterMap id)) = .ok (some v))) ∧
    (∀ a b, Produced (average bucketShape) combine (Sound bucketShape inner) a →
      Produced (average bucketShape) combine (Sound bucketShape inner) b → ∃ ab, a.combine b = .ok ab ∧
      b.combine a = .ok ab) ∧
    (∀ a b c, Produced (average bucketShape) combine (Sound bucketShape inner) a →
      Produced (average bucketShape) combine (Sound bucketShape inner) b →
      Produced (average bucketShape) combine (Sound bucketShape inner) c →
      ∃ ab bc abc, a.combine b = .ok ab ∧ b.combine c = .ok bc ∧ ab.combine c = .ok abc ∧ a.combine bc = .ok abc) ∧
    ∀ a b v, Produced (average bucketShape) combine (Sound bucketShape inner) a →
      Produced (average bucketShape) combine (Sound bucketShape inner) b → a.combine b = .ok v →
      ∀ bucket < volume bucketShape, ((a.blockAt bucket).2 = 0 → v.blockAt bucket = b.blockAt bucket) ∧
        ((b.blockAt bucket).2 = 0 → v.blockAt bucket = a.blockAt bucket) := by
  have htotals := hasTotals bucketShape inner
  refine ⟨fun parts h => ⟨_, average_total bucketShape inner parts, fun t hperm => htotals.result_eq_of_perm h hperm,
    fun hne groups hperm => ?_⟩, fun a b ha hb => htotals.comm ha hb, fun a b c ha hb hc => htotals.assoc ha hb hc,
    fun a b v ha hb hv bucket hbucket => combine_without_weight ha hb hv hbucket⟩
  -- the groups hold the parts in another order, and an empty group leaves no average
  have hgroups : ∀ t ∈ groups.flatten, t.Sound bucketShape inner := fun t ht => h t (hperm.mem_iff.1 ht)
  have hflat : groups.flatten ≠ [] := fun hnil => hne (hnil ▸ hperm).nil_eq.symm
  rw [folded_eq hgroups, fold_folded hgroups, if_neg hflat, htotals.perm _ _ hperm]
  exact ⟨rfl, rfl⟩

/-- Two buckets of two numbers; the second bucket has no row in the part that is combined last. -/
theorem combine_two_parts :
    (Bracketing.both (.item ⟨⟨[2, 2], [3, 4, 5, 6]⟩, [3, 2]⟩) (.item ⟨⟨[2, 2], [1, 2, 0, 0]⟩, [1, 0]⟩)).result
      (average [2]) combine = .ok ⟨[2], ⟨[2, 2], [1, 3 / 2, 5 / 2, 3]⟩, ⟨[2], [4, 2]⟩⟩ := by
  have hsound : ∀ t ∈ [⟨⟨[2, 2], [1, 2, 0, 0]⟩, [1, 0]⟩, ⟨⟨[2, 2], [3, 4, 5, 6]⟩, [3, 2]⟩], Sound [2] [2] t := by
    simp only [List.forall_mem_cons, List.not_mem_nil, false_imp_iff, implies_true, and_true]
    exact ⟨⟨rfl, rfl, rfl, by decide +kernel, by decide +kernel⟩, ⟨rfl, rfl, rfl, by decide +kernel, by decide +kernel⟩⟩
  obtain ⟨v, hv, hresult, -⟩ := (combine_any_way [2] [2]).1 _ hsound
  have hswap := hresult (.both (.item ⟨⟨[2, 2], [3, 4, 5, 6]⟩, [3, 2]⟩) (.item ⟨⟨[2, 2], [1, 2, 0, 0]⟩, [1, 0]⟩))
    (.swap _ _ _)
  rw [hswap, ← hv]
  decide +kernel

end BucketTotals
end ShotTally
