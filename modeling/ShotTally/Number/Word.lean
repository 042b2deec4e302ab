/-
Arithmetic on counts and positions, without bounds or in words of 64 bits. In words a result beyond the range
comes in again at its other end.
-/
import ShotTally.Text.Numeral

namespace ShotTally

open Text

inductive Arithmetic where
  | unbounded
  | words
  deriving DecidableEq, Repr

namespace Arithmetic

/-- What is kept of a count. -/
def count : Arithmetic → Nat → Nat
  | unbounded, n => n
  | words, n => n % nat64End

/-- What is kept of a signed number. -/
def signed : Arithmetic → Int → Int
  | unbounded, i => i
  | words, i => (i + int64End) % (2 * int64End) - int64End

/-- A signed number taken as a position. -/
def position : Arithmetic → Int → Nat
  | unbounded, i => i.toNat
  | words, i => (i % nat64End).toNat

end Arithmetic
end ShotTally
