/-
Numbers from text: an optional sign, then digits with an optional point and exponent, or the
words for infinity and not-a-number in any case.
-/
import ShotTally.Number.Double
import ShotTally.Text.Numeral

namespace ShotTally.Decimal

open Text

/-- The double nearest to `digits * 10 ^ exponent`, ties to even. A number of `count` digits
beyond the range of doubles is decided by its size alone. -/
def nearest (digits : Nat) (count : Nat) (exponent : Int) : Double :=
  if digits = 0 ∨ (count : Int) + exponent < -400 then .zero
  else if 400 < ((natDigits digits).length : Int) + exponent then .infinity
  else .ofFloat (Float.ofScientific digits (decide (exponent < 0)) exponent.natAbs)

/-- Lower case for the letters of the words. -/
def lower (c : Char) : Char := if 'A' ≤ c ∧ c ≤ 'Z' then Char.ofNat (c.toNat + 32) else c

/-- The exponent after its mark: an optional sign and one digit or more. -/
def exponent? : List Char → Option Int
  | '+' :: ds => (nat? ds).map fun n => (n : Int)
  | '-' :: ds => (nat? ds).map fun n => -(n : Int)
  | ds => (nat? ds).map fun n => (n : Int)

/-- Digits with an optional point among them and an optional exponent. -/
def unsigned? (cs : List Char) : Option Double :=
  let whole := cs.takeWhile isDigit
  let afterWhole := cs.dropWhile isDigit
  let (part, rest) := match afterWhole with
    | '.' :: more => (more.takeWhile isDigit, more.dropWhile isDigit)
    | other => ([], other)
  let digits := whole ++ part
  let value (e : Int) : Option Double :=
    (nat? digits).map fun n => nearest n digits.length (e - (part.length : Int))
  match rest with
  | [] => value 0
  | c :: more => if c = 'e' ∨ c = 'E' then (exponent? more).bind value else none

def magnitude? (cs : List Char) : Option Double :=
  match String.ofList (cs.map lower) with
  | "inf" => some .infinity
  | "infinity" => some .infinity
  | "nan" => some .nan
  | _ => unsigned? cs

end ShotTally.Decimal

namespace ShotTally

/-- Reads a number. -/
def Double.parse? : List Char → Option Double
  | '-' :: cs => (Decimal.magnitude? cs).map Double.neg
  | '+' :: cs => Decimal.magnitude? cs
  | cs => Decimal.magnitude? cs

end ShotTally
