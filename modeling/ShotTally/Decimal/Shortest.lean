/-
The shortest decimal of a double: the fewest digits that read back to it, and of those the
nearest. Everything is decided by exact comparisons of whole numbers.
-/
import ShotTally.Number.Double

namespace ShotTally

/-- The number `digits * 10 ^ exponent`. -/
structure Decimal where
  digits : Nat
  exponent : Int
  deriving DecidableEq, Repr

namespace Decimal

/-- Which of two equally near decimals is taken. -/
inductive Tie where
  | upward
  | toEven
  deriving DecidableEq, Repr

/-- Compares `a * 10 ^ i` with `b * 2 ^ j`. -/
def compareScaled (a : Nat) (i : Int) (b : Nat) (j : Int) : Ordering :=
  compare (a * Nat.pow 10 i.toNat * Nat.pow 2 (-j).toNat)
    (b * Nat.pow 2 j.toNat * Nat.pow 10 (-i).toNat)

/-- The decimal lies among the numbers that round to the magnitude of `x`: between the points
halfway to its neighbours, which belong to it when its significand is even. Just above a power
of two the lower neighbour is half as far away. -/
def readsBack (x : Double) (d : Decimal) : Bool :=
  let narrow := x.fraction == 0 && decide (1 < x.biasedExponent)
  let low := if narrow then 4 * x.significand - 1 else 4 * x.significand - 2
  let high := 4 * x.significand + 2
  let closed := x.significand % 2 == 0
  let toLow := compareScaled d.digits d.exponent low (x.scale - 2)
  let toHigh := compareScaled d.digits d.exponent high (x.scale - 2)
  (toLow == .gt || (closed && toLow == .eq)) && (toHigh == .lt || (closed && toHigh == .eq))

/-- The least `k` for which the magnitude of `x` is below `10 ^ k`. The estimate from the binary
logarithm is at most two too low. -/
def magnitudeEnd (x : Double) : Int :=
  let low := (((x.significand.log2 : Int) + x.scale) * 30103).fdiv 100000
  if compareScaled 1 low x.significand x.scale == .gt then low
  else if compareScaled 1 (low + 1) x.significand x.scale == .gt then low + 1
  else low + 2

/-- The number of whole steps of `10 ^ p` in the magnitude of `x`. -/
def wholeSteps (x : Double) (p : Int) : Nat :=
  (x.significand * Nat.pow 2 x.scale.toNat * Nat.pow 10 (-p).toNat)
    / (Nat.pow 2 (-x.scale).toNat * Nat.pow 10 p.toNat)

/-- The nearest decimal with step `10 ^ p` that reads back, if there is one. -/
def onGrid (tie : Tie) (x : Double) (p : Int) : Option Decimal :=
  let below := wholeSteps x p
  let lower : Decimal := ⟨below, p⟩
  let upper : Decimal := ⟨below + 1, p⟩
  match readsBack x lower, readsBack x upper with
  | true, false => some lower
  | false, true => some upper
  | false, false => none
  | true, true =>
    match compareScaled (2 * below + 1) p (2 * x.significand) x.scale with
    | .gt => some lower
    | .lt => some upper
    | .eq => match tie with
      | .upward => some upper
      | .toEven => some (if below % 2 = 0 then lower else upper)

/-- The exact value as a decimal. -/
def exact (x : Double) : Decimal :=
  if 0 ≤ x.scale then ⟨x.significand * Nat.pow 2 x.scale.toNat, 0⟩
  else ⟨x.significand * Nat.pow 5 (-x.scale).toNat, x.scale⟩

/-- Moves trailing zeros of the digits into the exponent. -/
def strip : Nat → Decimal → Decimal
  | 0, d => d
  | fuel + 1, d =>
    if d.digits ≠ 0 ∧ d.digits % 10 = 0 then strip fuel ⟨d.digits / 10, d.exponent + 1⟩ else d

/-- The shortest decimal of the magnitude of a finite number. Seventeen digits always suffice. -/
def shortest (tie : Tie) (x : Double) : Decimal :=
  if x.significand = 0 then ⟨0, 0⟩
  else
    let top := magnitudeEnd x
    let found := (List.range 17).findSome? fun (n : Nat) => onGrid tie x (top - 1 - (n : Int))
    strip 400 (found.getD (exact x))

end Decimal
end ShotTally
