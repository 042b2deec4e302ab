/-
Filters on one sample: all of it, chosen channels, or sums over ranges of channels.
-/
import ShotTally.Failure
import ShotTally.Number.Scalar
import ShotTally.Text.Numeral

namespace ShotTally

open Text

inductive SampleFilter where
  | identity
  | select (indices : List Nat)
  /-- Ranges from a start up to an exclusive stop. -/
  | rangeSums (ranges : List (Nat × Nat))
  deriving DecidableEq, Repr

namespace SampleFilter

variable {α : Type}

/-- Length of what the filter makes of a sample of the given length. -/
def outputLength (length : Nat) : SampleFilter → Nat
  | .identity => length
  | .select indices => indices.length
  | .rangeSums ranges => ranges.length

def boundsReport (index length : Nat) : Report :=
  Report.new .stats "filter_bounds" "sample filter reaches past the sample"
    |>.note "index" (natText index)
    |>.note "len" (natText length)

def apply [Scalar α] (sample : List α) : SampleFilter → Outcome (List α)
  | .identity => .ok sample
  | .select indices => indices.mapM fun i =>
    match sample[i]? with
    | some x => .ok x
    | none => fail (boundsReport i sample.length)
  | .rangeSums ranges => ranges.mapM fun (start, stop) =>
    if stop < start ∨ sample.length < stop then fail (boundsReport stop sample.length)
    else .ok (Scalar.sum ((sample.drop start).take (stop - start)))

end SampleFilter
end ShotTally
