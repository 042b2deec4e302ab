/-
Averages with weights, one for each bucket, and their combination by weight.
-/
import ShotTally.Tensor.Rows

namespace ShotTally

open Text

variable {α : Type}

/-- Averages and weights of buckets arranged in a shape; the axes of the average are those of the
buckets followed by those of the data. -/
structure WeightedAverage (α : Type) where
  bucketShape : List Nat
  average : Tensor α
  weights : Tensor α
  deriving DecidableEq

/-- Averages and weights of several sets side by side. -/
structure StackedAverage (α : Type) where
  average : Tensor α
  weights : Tensor α
  deriving DecidableEq

namespace WeightedAverage

def shapeReport (code message : String) (left right : List Nat) : Report :=
  Report.new .stats code message
    |>.note "left" (sizesText left)
    |>.note "right" (sizesText right)

/-- Divides the elements of each bucket by its count; a count of zero leaves them alone. -/
def divideBuckets [Scalar α] (width : Nat) : List α → List α → List α
  | [], data => data
  | count :: counts, data =>
    (data.take width).map (· / Scalar.divisor count)
      ++ divideBuckets width counts (data.drop width)

/-- Averages from the sums over each bucket and the number of rows summed. -/
def ofSums [Scalar α] (bucketShape : List Nat) (sums : Tensor α) (counts : List α) :
    Outcome (WeightedAverage α) :=
  let buckets := volume bucketShape
  if counts.length ≠ buckets ∨ sums.shape.take bucketShape.length ≠ bucketShape then
    fail (shapeReport "bucket_shape" "sums and counts disagree with the bucket shape"
      sums.shape [counts.length])
  else
    let width := sums.size / buckets
    .ok ⟨bucketShape, ⟨sums.shape, divideBuckets width counts sums.data⟩, ⟨bucketShape, counts⟩⟩

def bucketCount (a : WeightedAverage α) : Nat := a.weights.size

def dataShape (a : WeightedAverage α) : List Nat := a.average.shape.drop a.bucketShape.length

/-- The weighted mean of two averages of one bucket. -/
def meanOf [Scalar α] (weightA weightB a b : α) : α :=
  (a * weightA + b * weightB) / Scalar.divisor (weightA + weightB)

/-- The weighted means of the buckets, one after the other. -/
def combineBuckets [Scalar α] (width : Nat) : List (α × α) → List α → List α → List α
  | [], left, _ => left
  | (a, b) :: weights, left, right =>
    List.zipWith (meanOf a b) (left.take width) (right.take width)
      ++ combineBuckets width weights (left.drop width) (right.drop width)

/-- The average over what either side averaged, of the same buckets and data. -/
def combine [Scalar α] (a b : WeightedAverage α) : Outcome (WeightedAverage α) :=
  if a.average.shape ≠ b.average.shape ∨ a.bucketShape ≠ b.bucketShape then
    fail (shapeReport "combine_shape" "weighted averages differ in shape"
      a.average.shape b.average.shape)
  else
    let weights := a.weights.data.zip b.weights.data
    .ok {
      bucketShape := a.bucketShape
      average := ⟨a.average.shape,
        combineBuckets (volume a.dataShape) weights a.average.data b.average.data⟩
      weights := ⟨a.weights.shape, weights.map fun (x, y) => x + y⟩ }

/-- Combines averages from the first on; none of them gives none. -/
def fold [Scalar α] : List (WeightedAverage α) → Outcome (Option (WeightedAverage α))
  | [] => .ok none
  | first :: others => (others.foldlM combine first).map some

def stack (parts : List (WeightedAverage α)) : Outcome (StackedAverage α) := do
  return ⟨← Tensor.stack (parts.map (·.average)), ← Tensor.stack (parts.map (·.weights))⟩

end WeightedAverage
end ShotTally
