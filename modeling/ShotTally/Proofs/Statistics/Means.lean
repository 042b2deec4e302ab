/-
Exact averages of buckets. The average of sorted rows has, bucket by bucket, the number of rows as
its weight and the mean of the rows as its value, and combining averages of parts comes to the
average of all rows together.
-/
import ShotTally.Cache.Artifact
import ShotTally.Proofs.Number.Exact
import ShotTally.Proofs.Statistics.Blocks
import ShotTally.Proofs.Tensor.RowView

namespace ShotTally

open Exact

/-! ## Columns -/

namespace Tensor

/-- The elements of all rows at one position. -/
def column (t : Tensor ℚ) (j : Nat) : List ℚ :=
  (List.range t.rowCount).map fun i => t.data.getD (i * t.rowWidth + j) 0

/-- The mean of the rows, element by element. -/
def meanRow (t : Tensor ℚ) : List ℚ := (List.range t.rowWidth).map fun j => mean (t.column j)

theorem length_column (t : Tensor ℚ) (j : Nat) : (t.column j).length = t.rowCount := by
  rw [column, List.length_map, List.length_range]

/-- The columns of rows that were split off are the entries of the rows at one position. -/
theorem column_of_splitRows {width : Nat} : ∀ {n : Nat} {data : List ℚ} {rows : List (List ℚ)},
    splitRows width n data = .ok rows → rows.length = n ∧
      ∀ j < width, ((List.range n).map fun i => data.getD (i * width + j) 0) = rows.map (·.getD j 0)
  | 0, data, rows, h => by
    cases h
    simp
  | n + 1, data, rows, h => by
    obtain ⟨⟨first, rest⟩, hfirst, h⟩ := bind_eq_ok.1 h
    obtain ⟨others, hothers, h⟩ := bind_eq_ok.1 h
    cases h
    unfold takeExactly at hfirst
    dsimp only at hfirst
    split at hfirst
    case isFalse => cases hfirst
    rename_i hlen
    cases hfirst
    obtain ⟨hcount, hcolumns⟩ := column_of_splitRows hothers
    refine ⟨by rw [List.length_cons, hcount], fun j hj => ?_⟩
    -- below the first row everything is one width further on
    have hrest : ∀ i, data.getD ((i + 1) * width + j) 0 = (data.drop width).getD (i * width + j) 0 := fun i => by
      rw [List.getD_eq_getElem?_getD, List.getD_eq_getElem?_getD, List.getElem?_drop, Nat.succ_mul]
      congr 2
      omega
    rw [List.range_succ_eq_map, List.map_cons, List.map_map, List.map_cons, ← hcolumns j hj]
    refine congrArg₂ _ ?_ (List.map_congr_left fun i _ => hrest i)
    rw [Nat.zero_mul, Nat.zero_add, List.getD_eq_getElem?_getD, List.getD_eq_getElem?_getD, List.getElem?_take_of_lt hj]

/-- Adding up rows of one length. -/
theorem foldl_zipWith_add {width : Nat} {rows : List (List ℚ)} {acc : List ℚ} (h : ∀ row ∈ rows, row.length = width)
    (ha : acc.length = width) : rows.foldl (List.zipWith (· + ·)) acc =
      (List.range width).map fun j => acc.getD j 0 + (rows.map (·.getD j 0)).sum := by
  have hfold : ∀ (a : ℚ) (l : List ℚ), l.foldl (· + ·) a = a + l.sum := fun a l => by
    induction l generalizing a with
    | nil => rw [List.foldl_nil, List.sum_nil, add_zero]
    | cons x l ih => rw [List.foldl_cons, ih, List.sum_cons, add_assoc]
  refine (foldl_zipWith_eq h ha).trans (List.map_congr_left fun j _ => ?_)
  exact hfold _ _

/-- The sum of the rows is the sum of every column. -/
theorem sumRows_eq {t : Tensor ℚ} (h : t.WellFormed) :
    t.sumRows = .ok ⟨t.innerShape, (List.range t.rowWidth).map fun j => (t.column j).sum⟩ := by
  rw [h.sumRows_eq_rowSum]
  refine congrArg (fun data => Except.ok (⟨t.innerShape, data⟩ : Tensor ℚ)) (List.map_congr_left fun j hj => ?_)
  rw [column, (column_of_splitRows h.rows_eq).2 j (List.mem_range.1 hj), List.sum_eq_foldl]
  rfl

/-- Rows that are put together have the columns of both. -/
theorem column_append {t u v : Tensor ℚ} (ht : t.WellFormed) (hw : u.rowWidth = t.rowWidth)
    (hv : v.rowWidth = t.rowWidth)
    (hn : v.rowCount = t.rowCount + u.rowCount) (hd : v.data = t.data ++ u.data) {j : Nat} (hj : j < t.rowWidth) :
    v.column j = t.column j ++ u.column j := by
  have hlen : t.data.length = t.rowCount * t.rowWidth := by rw [← volume_shape]; exact ht
  unfold column
  rw [hn, hd, hv, hw, List.range_add, List.map_append, List.map_map]
  refine congrArg₂ _ (List.map_congr_left fun i hi => ?_) (List.map_congr_left fun i _ => ?_)
  · have hi : i + 1 ≤ t.rowCount := List.mem_range.1 hi
    have hlt : i * t.rowWidth + j < t.data.length := by
      have := Nat.mul_le_mul_right t.rowWidth hi
      rw [Nat.succ_mul] at this
      omega
    rw [List.getD_eq_getElem?_getD, List.getD_eq_getElem?_getD, List.getElem?_append_left hlt]
  · have hle : t.data.length ≤ (t.rowCount + i) * t.rowWidth + j := by rw [hlen, Nat.add_mul]; omega
    rw [Function.comp_apply, List.getD_eq_getElem?_getD, List.getD_eq_getElem?_getD,
      List.getElem?_append_right hle, hlen,
      Nat.add_mul]
    congr 2
    omega

end Tensor

/-! ## Averages of sorted rows -/

/-- As many tensors as buckets, each with rows of the same shape. -/
structure CollectedBuckets.Even (c : CollectedBuckets ℚ) (inner : List Nat) : Prop where
  count : c.rows.length = volume c.bucketShape
  rows : ∀ t ∈ c.rows, t.innerShape = inner ∧ t.WellFormed

namespace CollectedBuckets

/-- Bucket by bucket the mean of its rows, weighted by their number. -/
def means (c : CollectedBuckets ℚ) : WeightedAverage ℚ where
  bucketShape := c.bucketShape
  average := ⟨c.bucketShape ++ (c.rows.head?.map Tensor.innerShape).getD [], c.rows.flatMap Tensor.meanRow⟩
  weights := ⟨c.bucketShape, c.rows.map fun t => (t.rowCount : ℚ)⟩

end CollectedBuckets

/-! ## The average of a file -/

/-- The average of the rows of a file. -/
theorem FileBuckets.average_eq {b : FileBuckets ℚ} {inner : List Nat}
    (h : (⟨b.bucketShape, b.rows⟩ : CollectedBuckets ℚ).Even inner) (hne : b.rows ≠ []) :
    (do (← b.sums).average) = .ok (⟨b.bucketShape, b.rows⟩ : CollectedBuckets ℚ).means := by
  have hwidth : ∀ t ∈ b.rows, t.rowWidth = volume inner := fun t ht => congrArg volume (h.rows t ht).1
  have hdata : (b.rows.head?.map Tensor.innerShape).getD [] = inner := by
    obtain ⟨t, rest, hr⟩ := List.exists_cons_of_ne_nil hne
    rw [hr]
    exact (h.rows t (by rw [hr]; simp)).1
  have hlen : ∀ t ∈ b.rows, ((List.range t.rowWidth).map fun j => (t.column j).sum).length = volume inner :=
    fun t ht => by
    rw [List.length_map, List.length_range, hwidth t ht]
  have htotal : ∀ t ∈ b.rows, t.sumRows = .ok ⟨inner, (List.range t.rowWidth).map fun j => (t.column j).sum⟩ :=
    fun t ht => by
    rw [Tensor.sumRows_eq (h.rows t ht).2, (h.rows t ht).1]
  have hmean : ∀ t : Tensor ℚ, ((List.range t.rowWidth).map fun j => (t.column j).sum).map
      (· / Scalar.divisor (Scalar.ofNat t.rowCount)) = t.meanRow := fun t => by
    rw [List.map_map]
    refine List.map_congr_left fun j _ => ?_
    rw [Function.comp_apply, ← t.length_column j]
    exact sum_div_divisor _
  rw [average_of_totals (List.map_id b.rows).symm hne h.count (fun t ht => (h.rows t ht).1) hlen htotal]
  unfold WeightedAverage.ofBlocks CollectedBuckets.means
  simp only [id, hmean, hdata, List.flatMap_map, List.map_map]
  rfl

/-! ## Averages of parts -/

namespace Exact

/-- The elements at one position of all rows of a bucket, part by part. -/
def columnOf (parts : List (List (Tensor ℚ))) (bucket j : Nat) : List ℚ :=
  parts.flatMap fun rows => (rows[bucket]?.map fun t => t.column j).getD []

/-- The number of rows of a bucket in all parts. -/
def rowsOf (parts : List (List (Tensor ℚ))) (bucket : Nat) : Nat :=
  (parts.map fun rows => (rows[bucket]?.map Tensor.rowCount).getD 0).sum

/-- The average over the rows of all parts. -/
def averageOf (bucketShape inner : List Nat) (parts : List (List (Tensor ℚ))) : WeightedAverage ℚ where
  bucketShape := bucketShape
  average := ⟨bucketShape ++ inner, (List.range (volume bucketShape)).flatMap fun bucket =>
    (List.range (volume inner)).map fun j => mean (columnOf parts bucket j)⟩
  weights := ⟨bucketShape, (List.range (volume bucketShape)).map fun bucket => ((rowsOf parts bucket : Nat) : ℚ)⟩

theorem length_columnOf (parts : List (List (Tensor ℚ))) (bucket j : Nat) :
    (columnOf parts bucket j).length = rowsOf parts bucket := by
  induction parts with
  | nil => rfl
  | cons rows parts ih =>
    rw [columnOf, rowsOf, List.flatMap_cons, List.length_append, List.map_cons, List.sum_cons]
    refine congrArg₂ (· + ·) ?_ ih
    cases rows[bucket]? with
    | none => rfl
    | some t => exact t.length_column j

theorem flatMap_range {β γ : Type} (f : β → List γ) : ∀ l : List β,
    (List.range l.length).flatMap (fun i => (l[i]?.map f).getD []) = l.flatMap f
  | [] => rfl
  | b :: l => by
    rw [List.length_cons, List.range_succ_eq_map, List.flatMap_cons, List.flatMap_map, List.flatMap_cons,
      ← flatMap_range f l]
    rfl

theorem map_range {β γ : Type} (f : β → γ) (c : γ) : ∀ l : List β,
    (List.range l.length).map (fun i => (l[i]?.map f).getD c) = l.map f
  | [] => rfl
  | b :: l => by
    rw [List.length_cons, List.range_succ_eq_map, List.map_cons, List.map_map, List.map_cons, ← map_range f c l]
    rfl

/-- The means of rows are the average of these rows alone. -/
theorem means_eq {c : CollectedBuckets ℚ} {inner : List Nat} (h : c.Even inner) (hne : c.rows ≠ []) :
    c.means = averageOf c.bucketShape inner [c.rows] := by
  have hinner : (c.rows.head?.map Tensor.innerShape).getD [] = inner := by
    obtain ⟨t, rest, hr⟩ := List.exists_cons_of_ne_nil hne
    rw [hr]
    exact (h.rows t (by rw [hr]; simp)).1
  -- the mean row of a bucket is the mean of each of its columns
  have haverage : ∀ bucket ∈ List.range c.rows.length, (List.range (volume inner)).map
      (fun j => mean (columnOf [c.rows] bucket j)) = (c.rows[bucket]?.map Tensor.meanRow).getD [] := by
    intro bucket hb
    have hlt := List.mem_range.1 hb
    have hw : c.rows[bucket].rowWidth = volume inner := congrArg volume (h.rows _ (List.getElem_mem hlt)).1
    rw [List.getElem?_eq_getElem hlt, Option.map_some, Option.getD_some, Tensor.meanRow, hw]
    refine List.map_congr_left fun j _ => ?_
    rw [columnOf, List.flatMap_singleton, List.getElem?_eq_getElem hlt]
    rfl
  unfold CollectedBuckets.means averageOf
  rw [hinner, ← h.count, ← flatMap_range Tensor.meanRow, ← map_range (fun t : Tensor ℚ => (t.rowCount : ℚ)) 0]
  congr 2
  · exact List.flatMap_congr fun bucket hb => (haverage bucket hb).symm
  · refine List.map_congr_left fun bucket _ => ?_
    rw [rowsOf, List.map_singleton, List.sum_singleton]
    cases c.rows[bucket]? with
    | none => exact Nat.cast_zero.symm
    | some t => rfl

theorem columnOf_append (parts parts' : List (List (Tensor ℚ))) (bucket j : Nat) :
    columnOf (parts ++ parts') bucket j = columnOf parts bucket j ++ columnOf parts' bucket j := List.flatMap_append

theorem rowsOf_append (parts parts' : List (List (Tensor ℚ))) (bucket : Nat) :
    rowsOf (parts ++ parts') bucket = rowsOf parts bucket + rowsOf parts' bucket := by
  rw [rowsOf, List.map_append, List.sum_append]
  rfl

/-- The block of a bucket in the average over the rows of all parts. -/
def blockOver (inner : List Nat) (parts : List (List (Tensor ℚ))) (bucket : Nat) : List ℚ × ℚ :=
  ((List.range (volume inner)).map fun j => mean (columnOf parts bucket j), ((rowsOf parts bucket : Nat) : ℚ))

theorem averageOf_eq_ofBlocks (bucketShape inner : List Nat) (parts : List (List (Tensor ℚ))) :
    averageOf bucketShape inner parts =
      .ofBlocks bucketShape inner ((List.range (volume bucketShape)).map (blockOver inner parts)) := by
  simp [averageOf, WeightedAverage.ofBlocks, blockOver, List.flatMap_map, Function.comp_def]

/-- The blocks of some parts and of some others combine to those of all of them. -/
theorem combineBlock_blockOver (inner : List Nat) (parts parts' : List (List (Tensor ℚ))) (bucket : Nat) :
    combineBlock (blockOver inner parts bucket) (blockOver inner parts' bucket) =
      blockOver inner (parts ++ parts') bucket := by
  unfold combineBlock blockOver
  rw [rowsOf_append, Nat.cast_add, List.zipWith_map, List.zipWith_self]
  refine congrArg (·, _) (List.map_congr_left fun j _ => ?_)
  rw [columnOf_append, ← mean_append, length_columnOf, length_columnOf]
  rfl

/-- Combining the averages of some parts and of some others comes to the average of all of them. -/
theorem combine_averageOf {bucketShape inner inner' : List Nat} {parts parts' : List (List (Tensor ℚ))}
    {v : WeightedAverage ℚ} :
    (averageOf bucketShape inner parts).combine (averageOf bucketShape inner' parts') = .ok v ↔
      inner = inner' ∧ v = averageOf bucketShape inner (parts ++ parts') := by
  simp only [averageOf_eq_ofBlocks]
  rw [WeightedAverage.combine_ofBlocks (fun i _ => by simp [blockOver]) (fun i _ => by simp [blockOver])]
  refine and_congr_right fun hinner => ?_
  subst hinner
  simp only [combineBlock_blockOver]

end Exact
end ShotTally
