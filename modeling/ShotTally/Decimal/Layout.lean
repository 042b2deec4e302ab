/-
Numbers as text. The digits are the shortest that read back; how they are set out is decided by
one record.
-/
import ShotTally.Decimal.Shortest
import ShotTally.Text.Numeral

namespace ShotTally.Decimal

open Text

/-- How numbers are set out. -/
structure Layout where
  tie : Tie
  /-- Exponents of the leading digit that are written without an exponent; all when absent. -/
  positional : Option (Int × Int)
  /-- Whole numbers end in `.0`. -/
  pointZero : Bool

/-- Rules compare numbers by this text: the fewest digits, never an exponent, no fraction on a
whole number, and of two equally near decimals the upper one. -/
def canonical : Layout := ⟨.upward, none, false⟩

/-- Numbers in canonical records: an exponent outside `10 ^ -5` to `10 ^ 16`, a fraction on every
whole number, and of two equally near decimals the even one. -/
def record : Layout := ⟨.toEven, some (-5, 15), true⟩

/-- The exponent of the leading digit. -/
def leading (d : Decimal) : Int := ((natDigits d.digits).length : Int) + d.exponent - 1

/-- The digits with a point in their place. -/
def plainDigits (pointZero : Bool) (d : Decimal) : List Char :=
  let ds := natDigits d.digits
  if 0 ≤ d.exponent then
    ds ++ List.replicate d.exponent.toNat '0' ++ (if pointZero then ['.', '0'] else [])
  else
    let places := (-d.exponent).toNat
    if places < ds.length then
      ds.take (ds.length - places) ++ '.' :: ds.drop (ds.length - places)
    else '0' :: '.' :: (List.replicate (places - ds.length) '0' ++ ds)

/-- One digit before the point, and a signed exponent. -/
def exponentDigits (d : Decimal) : List Char :=
  let ds := natDigits d.digits
  let e := d.leading
  let mantissa := match ds with
    | c :: [] => [c]
    | c :: rest => c :: '.' :: rest
    | [] => []
  mantissa ++ 'e' :: (if 0 ≤ e then '+' :: intDigits e else intDigits e)

def Layout.digits (l : Layout) (d : Decimal) : List Char :=
  match l.positional with
  | none => plainDigits l.pointZero d
  | some (low, high) =>
    if d.digits = 0 ∨ (low ≤ d.leading ∧ d.leading ≤ high) then plainDigits l.pointZero d
    else exponentDigits d

/-- The text of a number. NaN is written without a sign. -/
def Layout.text (l : Layout) (x : Double) : String :=
  if x.isNaN then "NaN"
  else
    let sign := if x.isNegative then ['-'] else []
    if x.isFinite then String.ofList (sign ++ l.digits (shortest l.tie x))
    else String.ofList sign ++ "inf"

end ShotTally.Decimal

namespace ShotTally

/-- The text by which rules compare a number. -/
def Double.text (x : Double) : String := Decimal.canonical.text x

end ShotTally
