/-
Finding the phase at which the modulator is off from a reference signal: the phase whose readings
have the lowest mean magnitude.
-/
import ShotTally.Failure
import ShotTally.Number.Scalar
import ShotTally.Text.Numeral

namespace ShotTally.Modulator

open Text

variable {α : Type} [Scalar α]

/-- For each phase of a period the sum of the magnitudes of its readings, and how many there are. -/
structure Tally (α : Type) where
  totals : Array α
  counts : Array Nat

namespace Tally

def empty (period : Nat) : Tally α := ⟨.replicate period Scalar.zero, .replicate period 0⟩

/-- One more reading, at the phase of its shot. -/
def add (period : Int) (t : Tally α) (reading : Int × α) : Tally α :=
  let phase := (reading.1.emod period).toNat
  ⟨t.totals.modify phase (· + Scalar.abs reading.2), t.counts.modify phase (· + 1)⟩

end Tally

/-- One more phase. It takes the place of the best one so far if it has readings and their mean is strictly
lower. -/
def consider (best : Option (Int × α)) (phase : Nat) (total : α) (count : Nat) : Option (Int × α) :=
  if count = 0 then best
  else
    let mean := total / Scalar.ofNat count
    match best with
    | none => some (phase, mean)
    | some (_, lowest) => if Scalar.lt mean lowest then some (phase, mean) else best

/-- The phase of the lowest mean magnitude, the first of them on a tie. -/
def detectOffset (shots : List Int) (values : List α) (period : Int) : Outcome Int :=
  if period ≤ 0 then
    fail (Report.new .classify "modulator_period" "cannot detect an offset without a period"
      |>.note "period" (intText period))
  else if shots.length ≠ values.length then
    fail (Report.new .classify "reference_length" "reference signal is not per-shot"
      |>.note "shots" (natText shots.length)
      |>.note "values" (natText values.length))
  else
    let tally := (shots.zip values).foldl (Tally.add period) (.empty period.toNat)
    let entries := (tally.totals.toList.zip tally.counts.toList).zipIdx
    match entries.foldl (fun best e => consider best e.2 e.1.1 e.1.2) none with
    | none => fail (Report.new .classify "reference_empty" "reference signal has no samples")
    | some (phase, _) => .ok phase

end ShotTally.Modulator
