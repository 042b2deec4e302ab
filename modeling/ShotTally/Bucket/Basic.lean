/-
The rows of one file sorted into buckets, and what is made of them: sums, averages, moments.
-/
import ShotTally.Statistics.Average
import ShotTally.Statistics.Moments

namespace ShotTally

variable {α : Type}

/-- The rows of each bucket, in the order of the bucket axes. -/
structure FileBuckets (α : Type) where
  file : String
  bucketShape : List Nat
  rows : List (Tensor α)
  deriving DecidableEq

/-- The sum of the rows of each bucket, and the number of them. -/
structure BucketSums (α : Type) where
  file : String
  bucketShape : List Nat
  sums : Tensor α
  counts : List α
  deriving DecidableEq

def BucketSums.average [Scalar α] (s : BucketSums α) : Outcome (WeightedAverage α) :=
  WeightedAverage.ofSums s.bucketShape s.sums s.counts

namespace FileBuckets

variable [Scalar α]

/-- Shape of one row. -/
def dataShape (b : FileBuckets α) : List Nat := (b.rows.head?.map Tensor.innerShape).getD []

def sums (b : FileBuckets α) : Outcome (BucketSums α) := do
  let totals ← b.rows.mapM Tensor.sumRows
  let sums ← (← Tensor.stack totals).reshape (b.bucketShape ++ b.dataShape)
  return ⟨b.file, b.bucketShape, sums, b.rows.map fun t => Scalar.ofNat t.rowCount⟩

/-- Each row as a flat sample. -/
def flattened (t : Tensor α) : Outcome (Tensor α) := t.reshape [t.rowCount, t.rowWidth]

/-- The moments of the rows of each bucket, paired with those of another quantity or with
themselves. -/
def momentSums (b : FileBuckets α) (second : Option (FileBuckets α))
    (filter1 filter2 : SampleFilter) : Outcome (List (MomentSums α)) :=
  let partners : List (Option (Tensor α)) := match second with
    | some s => s.rows.map some
    | none => b.rows.map fun _ => none
  (b.rows.zip partners).mapM fun (rows, partner) => do
    let first ← flattened rows
    let second ← partner.mapM flattened
    MomentSums.accumulate first second filter1 filter2 (Scalar.ofNat 1)

end FileBuckets
end ShotTally
