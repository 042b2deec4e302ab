/-
Whole numbers as decimal digits: writing them, and reading them back.
-/

namespace ShotTally.Text

def digitChar (d : Nat) : Char := Char.ofNat (48 + d)

/-- Digits of a number, least significant first. -/
def digitsRev (n : Nat) : List Nat :=
  if h : n < 10 then [n] else n % 10 :: digitsRev (n / 10)
termination_by n
decreasing_by omega

def natDigits (n : Nat) : List Char := ((digitsRev n).reverse).map digitChar

def natText (n : Nat) : String := String.ofList (natDigits n)

def intDigits : Int → List Char
  | .ofNat n => natDigits n
  | .negSucc n => '-' :: natDigits (n + 1)

def intText (i : Int) : String := String.ofList (intDigits i)

/-- At least `width` digits, with leading zeros. -/
def padded (width n : Nat) : String :=
  let ds := natDigits n
  String.ofList (List.replicate (width - ds.length) '0' ++ ds)

def hexDigit (n : Nat) : Char := if n < 10 then Char.ofNat (48 + n) else Char.ofNat (87 + n)

def isDigit (c : Char) : Bool := decide ('0' ≤ c) && decide (c ≤ '9')

def digitValue (c : Char) : Nat := c.toNat - 48

/-- The number that digits stand for, after the digits already read. -/
def readDigits (acc : Nat) : List Char → Option Nat
  | [] => some acc
  | c :: cs => if isDigit c then readDigits (10 * acc + digitValue c) cs else none

/-- One digit or more, and nothing else. -/
def nat? : List Char → Option Nat
  | [] => none
  | cs => readDigits 0 cs

/-- The end of the range of a signed 64-bit word, which does not belong to it. -/
def int64End : Int := 0x8000000000000000

/-- Whether a number is held in a signed 64-bit word. -/
def isInt64 (i : Int) : Bool := decide (-int64End ≤ i) && decide (i < int64End)

/-- The end of the range of an unsigned 64-bit word, which does not belong to it. -/
def nat64End : Nat := 0x10000000000000000

/-- Digits behind an optional sign, within the range of a signed 64-bit word. -/
def int64? (cs : List Char) : Option Int :=
  let value : Option Int := match cs with
    | '-' :: ds => (nat? ds).map fun n => -(n : Int)
    | '+' :: ds => (nat? ds).map fun n => (n : Int)
    | ds => (nat? ds).map fun n => (n : Int)
  value.filter isInt64

end ShotTally.Text
