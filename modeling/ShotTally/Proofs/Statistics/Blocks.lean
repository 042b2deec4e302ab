/-
Averages as blocks of numbers, one for each bucket. Adding up, dividing and combining go bucket by bucket, so
the block of a bucket comes from its own rows alone, whatever numbers are computed with.
-/
import ShotTally.Bucket.Basic
import ShotTally.Proofs.Tensor.Joining

namespace ShotTally

variable {α ι : Type}

/-! ## Shapes -/

theorem volume_append (s t : List Nat) : volume (s ++ t) = volume s * volume t := by
  induction s with
  | nil => exact (Nat.one_mul _).symm
  | cons n s ih =>
    show n * volume (s ++ t) = n * volume s * volume t
    rw [ih, Nat.mul_assoc]

theorem length_flatMap_const {f : ι → List α} {w : Nat} : ∀ {l : List ι}, (∀ a ∈ l, (f a).length = w) →
    (l.flatMap f).length = l.length * w
  | [], _ => (Nat.zero_mul w).symm
  | a :: l, h => by
    rw [List.flatMap_cons, List.length_append, h a (by simp), length_flatMap_const fun b hb => h b (by simp [hb]),
      List.length_cons, Nat.succ_mul, Nat.add_comm]

/-! ## Blocks -/

/-- An average and a weight for each bucket, one after the other. -/
def WeightedAverage.ofBlocks (bucketShape inner : List Nat) (blocks : List (List α × α)) : WeightedAverage α where
  bucketShape := bucketShape
  average := ⟨bucketShape ++ inner, blocks.flatMap (·.1)⟩
  weights := ⟨bucketShape, blocks.map (·.2)⟩

variable [Scalar α]

/-- The combination of two averages of one bucket. -/
def combineBlock (x y : List α × α) : List α × α :=
  (List.zipWith (WeightedAverage.meanOf x.2 y.2) x.1 y.1, x.2 + y.2)

theorem divideBuckets_flatMap {width : Nat} {count : ι → α} {f : ι → List α} :
    ∀ {l : List ι}, (∀ i ∈ l, (f i).length = width) →
    WeightedAverage.divideBuckets width (l.map count) (l.flatMap f) = l.flatMap fun i =>
      (f i).map (· / Scalar.divisor (count i))
  | [], _ => rfl
  | i :: l, h => by
    have hi := h i (by simp)
    rw [List.map_cons, List.flatMap_cons, WeightedAverage.divideBuckets, List.take_left' hi, List.drop_left' hi,
      divideBuckets_flatMap fun k hk => h k (by simp [hk]), List.flatMap_cons]

theorem combineBuckets_flatMap {width : Nat} {f g : ι → List α × α} : ∀ {l : List ι},
    (∀ i ∈ l, (f i).1.length = width ∧ (g i).1.length = width) →
    WeightedAverage.combineBuckets width ((l.map fun i => (f i).2).zip (l.map fun i => (g i).2))
      (l.flatMap fun i => (f i).1)
      (l.flatMap fun i => (g i).1) = l.flatMap fun i => (combineBlock (f i) (g i)).1
  | [], _ => rfl
  | i :: l, h => by
    obtain ⟨hf, hg⟩ := h i (by simp)
    rw [List.map_cons, List.map_cons, List.zip_cons_cons, List.flatMap_cons, List.flatMap_cons,
      WeightedAverage.combineBuckets, List.take_left' hf, List.take_left' hg, List.drop_left' hf, List.drop_left' hg,
      combineBuckets_flatMap fun k hk => h k (by simp [hk]), List.flatMap_cons]
    rfl

/-! ## The average of a file -/

/-- The blocks of a file whose rows, in whatever form they are given, have these sums. -/
theorem FileBuckets.average_of_totals {b : FileBuckets α} {inner : List Nat} {l : List ι} {row : ι → Tensor α}
    {total : ι → List α} (hrows : b.rows = l.map row) (hne : l ≠ []) (hcount : l.length = volume b.bucketShape)
    (hshape : ∀ i ∈ l, (row i).innerShape = inner) (hlen : ∀ i ∈ l, (total i).length = volume inner)
    (htotal : ∀ i ∈ l, (row i).sumRows = .ok ⟨inner, total i⟩) :
    (do (← b.sums).average) = .ok (WeightedAverage.ofBlocks b.bucketShape inner (l.map fun i =>
      ((total i).map (· / Scalar.divisor (Scalar.ofNat (row i).rowCount)), Scalar.ofNat (row i).rowCount))) := by
  have hdata : b.dataShape = inner := by
    obtain ⟨i, others, rfl⟩ := List.exists_cons_of_ne_nil hne
    simp [dataShape, hrows, hshape]
  have htotals : b.rows.mapM Tensor.sumRows = .ok (l.map fun i => ⟨inner, total i⟩) := by
    rw [hrows, List.mapM_map]
    exact mapM_ok_of_mem htotal
  have hshapes : ∀ t ∈ l.map fun i => (⟨inner, total i⟩ : Tensor α), t.shape = inner := by simp
  have hsize : (l.flatMap total).length = l.length * volume inner := length_flatMap_const hlen
  -- the totals side by side, in the shape of the buckets and then of a row
  have hsums : b.sums = .ok ⟨b.file, b.bucketShape, ⟨b.bucketShape ++ inner, l.flatMap total⟩,
      l.map fun i => Scalar.ofNat (row i).rowCount⟩ := by
    unfold sums
    rw [htotals, ok_bind,
      Tensor.stack_eq (by simpa using hne) hshapes, ok_bind, hdata, List.flatMap_map, Tensor.reshape,
      if_pos (by rw [volume_append, hsize, hcount]), hrows, List.map_map]
    rfl
  have hpos : 0 < volume b.bucketShape := by
    rw [← hcount]
    exact List.length_pos_iff.2 hne
  rw [hsums, ok_bind]
  unfold BucketSums.average WeightedAverage.ofSums WeightedAverage.ofBlocks
  dsimp only
  rw [if_neg (by simp [hcount]), Tensor.size, hsize, hcount, Nat.mul_div_cancel_left _ hpos, divideBuckets_flatMap hlen,
    List.flatMap_map, List.map_map]
  rfl

/-! ## Combining averages -/

namespace WeightedAverage

variable {ι : Type} {bucketShape inner inner' : List Nat} {l : List ι} {f g : ι → List α × α}

/-- Averages with blocks of one length are combined bucket by bucket; blocks of two shapes are refused. -/
theorem combine_ofBlocks {v : WeightedAverage α} (hf : ∀ i ∈ l, (f i).1.length = volume inner)
    (hg : ∀ i ∈ l, (g i).1.length = volume inner') :
    (ofBlocks bucketShape inner (l.map f)).combine (ofBlocks bucketShape inner' (l.map g)) = .ok v ↔
      inner = inner' ∧ v = ofBlocks bucketShape inner (l.map fun i => combineBlock (f i) (g i)) := by
  unfold combine
  by_cases h : inner = inner'
  · subst h
    have hwidth : volume (ofBlocks bucketShape inner (l.map f)).dataShape = volume inner := by
      simp [dataShape, ofBlocks]
    have hblocks := combineBuckets_flatMap (l := l) (f := f) (g := g) fun i hi => ⟨hf i hi, hg i hi⟩
    rw [if_neg (by simp [ofBlocks]), hwidth]
    simp only [ofBlocks, List.map_map, List.flatMap_map, Function.comp_def, hblocks, Except.ok.injEq, true_and]
    simp only [List.zip_map', List.map_map, Function.comp_def, combineBlock]
    exact eq_comm
  · rw [if_pos (by simp [ofBlocks, h])]
    simp [fail, h]

theorem length_combineBlock {x y : List α × α} {width : Nat} (hx : x.1.length = width) (hy : y.1.length = width) :
    (combineBlock x y).1.length = width := by
  simp [combineBlock, hx, hy]

end WeightedAverage
end ShotTally
