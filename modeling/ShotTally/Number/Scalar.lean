/-
The numbers that are summed and averaged. The computations are written for any type of numbers
with these operations, so they can be run on doubles and reasoned about over exact ones.
-/
import ShotTally.Number.Double

namespace ShotTally

class Scalar (α : Type) extends Add α, Sub α, Mul α, Div α where
  zero : α
  /-- What a sum of no terms is: adding it to a number gives that number, signed zeros included. -/
  emptySum : α
  abs : α → α
  lt : α → α → Bool
  isZero : α → Bool
  ofNat : Nat → α
  ofDouble : Double → α

instance : Scalar Double where
  zero := .zero
  emptySum := .negZero
  abs := Double.abs
  lt := Double.lt
  isZero := fun d => d.numEq .zero
  ofNat := Double.ofNat
  ofDouble := id

namespace Scalar

variable {α : Type} [Scalar α]

instance : Inhabited α := ⟨zero⟩

/-- The sum of the terms from left to right. -/
def sum (terms : List α) : α := terms.foldl (· + ·) emptySum

/-- A divisor that leaves the dividend alone when the number is zero. -/
def divisor (n : α) : α := if isZero n then ofNat 1 else n

end Scalar
end ShotTally
