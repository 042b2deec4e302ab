/-
First and second moments of pairs of samples: running means and co-moments while pairs come in,
weighted sums when they are done, and the merging of sums from several batches.
-/
import ShotTally.Statistics.Filter
import ShotTally.Tensor.Basic

namespace ShotTally

open Text

variable {α : Type}

/-- A vector of zeros. -/
def zeroVector [Scalar α] (n : Nat) : List α := List.replicate n Scalar.zero

/-- A matrix of zeros, as rows. -/
def zeroMatrix [Scalar α] (rows columns : Nat) : List (List α) :=
  List.replicate rows (zeroVector columns)

/-- The products of all pairs of entries, a row for each entry of the first vector. -/
def outer [Scalar α] (xs ys : List α) : List (List α) := xs.map fun x => ys.map fun y => x * y

/-- Adds matrices entry by entry. -/
def addMatrix [Scalar α] (a b : List (List α)) : List (List α) :=
  a.zipWith (List.zipWith (· + ·)) b

def scaleMatrix [Scalar α] (a : List (List α)) (factor : α) : List (List α) :=
  a.map fun row => row.map (· * factor)

/-- Weighted sums over pairs of samples. -/
structure MomentSums (α : Type) where
  /-- Sum of the outer products of the deviations from the means. -/
  covarianceSum : List (List α)
  sum1 : List α
  sum2 : List α
  /-- Total weight of the pairs. -/
  count : α
  deriving DecidableEq

def dimensionReport (expected found : Nat × Nat) : Report :=
  let dims (d : Nat × Nat) : String := natText d.1 ++ "x" ++ natText d.2
  Report.new .stats "moment_dims" "moment sums have different dimensions"
    |>.note "expected" (dims expected)
    |>.note "found" (dims found)

namespace MomentSums

variable [Scalar α]

def zeros (length1 length2 : Nat) : MomentSums α :=
  ⟨zeroMatrix length1 length2, zeroVector length1, zeroVector length2, Scalar.zero⟩

/-- Lengths of the two samples of a pair. -/
def dims (m : MomentSums α) : Nat × Nat := (m.sum1.length, m.sum2.length)

/-- A sum divided by the total weight, or zeros when there is none. -/
def mean (sum : List α) (count : α) : List α :=
  if Scalar.isZero count then zeroVector sum.length else sum.map (· / count)

def mean1 (m : MomentSums α) : List α := mean m.sum1 m.count

def mean2 (m : MomentSums α) : List α := mean m.sum2 m.count

def covariance (m : MomentSums α) : List (List α) :=
  m.covarianceSum.map fun row => mean row m.count

/-- The sums over the pairs of both batches. -/
def merge (a b : MomentSums α) : Outcome (MomentSums α) :=
  if a.dims ≠ b.dims then fail (dimensionReport a.dims b.dims)
  else if Scalar.isZero b.count then .ok a
  else if Scalar.isZero a.count then .ok b
  else
    let total := a.count + b.count
    let delta1 := a.mean1.zipWith (· - ·) b.mean1
    let delta2 := a.mean2.zipWith (· - ·) b.mean2
    let correction := scaleMatrix (outer delta1 delta2) (a.count * b.count / total)
    .ok {
      covarianceSum := addMatrix (addMatrix a.covarianceSum b.covarianceSum) correction
      sum1 := a.sum1.zipWith (· + ·) b.sum1
      sum2 := a.sum2.zipWith (· + ·) b.sum2
      count := total }

end MomentSums

/-- Means and co-moments of the pairs so far. -/
structure RunningMoments (α : Type) where
  seen : Nat
  meanX : List α
  meanY : List α
  comoment : List (List α)
  deriving DecidableEq

namespace RunningMoments

variable [Scalar α]

def start (length1 length2 : Nat) : RunningMoments α :=
  ⟨0, zeroVector length1, zeroVector length2, zeroMatrix length1 length2⟩

/-- The mean after one more sample, the `n`-th. -/
def advance (mean sample : List α) (n : α) : List α :=
  List.zipWith (fun m x => m + (x - m) / n) mean sample

/-- Takes one pair; its first deviation is from the new mean, its second from the old one. -/
def push (m : RunningMoments α) (x y : List α) : Outcome (RunningMoments α) :=
  if x.length ≠ m.meanX.length ∨ y.length ≠ m.meanY.length then
    fail (dimensionReport (m.meanX.length, m.meanY.length) (x.length, y.length))
  else
    let n : α := Scalar.ofNat (m.seen + 1)
    let nextX := advance m.meanX x n
    let nextY := advance m.meanY y n
    .ok {
      seen := m.seen + 1
      meanX := nextX
      meanY := nextY
      comoment := addMatrix m.comoment
        (outer (x.zipWith (· - ·) nextX) (y.zipWith (· - ·) m.meanY)) }

/-- The sums, every pair having the given weight. -/
def finish (m : RunningMoments α) (weight : α) : MomentSums α :=
  let count : α := Scalar.ofNat m.seen * weight
  { covarianceSum := scaleMatrix m.comoment weight
    sum1 := m.meanX.map (· * count)
    sum2 := m.meanY.map (· * count)
    count := count }

end RunningMoments

namespace MomentSums

variable [Scalar α]

/-- The sums over the pairs of rows of two arrays, or of an array with itself. -/
def accumulate (first : Tensor α) (second : Option (Tensor α)) (filter1 filter2 : SampleFilter)
    (weight : α) : Outcome (MomentSums α) := do
  let second := second.getD first
  if second.rowCount ≠ first.rowCount then
    fail (Report.new .stats "sample_count" "sample streams differ in length"
      |>.note "first" (natText first.rowCount)
      |>.note "second" (natText second.rowCount))
  let start := RunningMoments.start (filter1.outputLength first.rowWidth)
    (filter2.outputLength second.rowWidth)
  let pairs := (← first.rows).zip (← second.rows)
  let done ← pairs.foldlM (fun (m : RunningMoments α) (x, y) => do
    m.push (← filter1.apply x) (← filter2.apply y)) start
  return done.finish weight

end MomentSums
end ShotTally
