/-
Buckets as tables of rows. The block of a bucket in an average comes from its own table.
-/
import ShotTally.Proofs.Statistics.Blocks
import ShotTally.Proofs.Tensor.RowView

namespace ShotTally

open Tensor

variable {α : Type}

/-- The rows of every bucket, all of one shape. -/
structure FileBuckets.Holds (b : FileBuckets α) (inner : List Nat) (tables : List (List (List α))) : Prop where
  rows : b.rows = tables.map (ofRows inner)
  fits : ∀ table ∈ tables, Fits inner table
  count : tables.length = volume b.bucketShape

variable [Scalar α]

/-- The average of some rows, element by element, weighted by their number. -/
def blockOf (inner : List Nat) (table : List (List α)) : List α × α :=
  ((totalRow inner table).map (· / Scalar.divisor (Scalar.ofNat table.length)), Scalar.ofNat table.length)

theorem length_blockOf {inner : List Nat} {table : List (List α)} (h : Fits inner table) :
    (blockOf inner table).1.length = volume inner := by
  simp [blockOf, h.length_totalRow]

/-- The average of a file has the average of every table for a block. -/
theorem FileBuckets.Holds.average_eq {b : FileBuckets α} {inner : List Nat} {tables : List (List (List α))}
    (h : b.Holds inner tables) (hne : tables ≠ []) :
    (do (← b.sums).average) = .ok (WeightedAverage.ofBlocks b.bucketShape inner (tables.map (blockOf inner))) :=
  average_of_totals h.rows hne h.count (fun table _ => innerShape_ofRows inner table)
    (fun table ht => (h.fits table ht).length_totalRow) fun table ht => (h.fits table ht).sumRows_ofRows

end ShotTally
