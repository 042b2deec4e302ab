/-
Double-precision numbers, held as their sixty-four bits so that two of them are equal exactly
when no reader can tell them apart. Arithmetic is that of binary64, each result rounded once to
nearest, ties to even.
-/
import ShotTally.Text.Numeral

namespace ShotTally

structure Double where
  bits : UInt64
  deriving DecidableEq

namespace Double

def ofFloat (x : Float) : Double := ⟨x.toBits⟩

def toFloat (d : Double) : Float := Float.ofBits d.bits

def zero : Double := ⟨0⟩
def negZero : Double := ⟨0x8000000000000000⟩
def one : Double := ⟨0x3ff0000000000000⟩
def infinity : Double := ⟨0x7ff0000000000000⟩
def nan : Double := ⟨0x7ff8000000000000⟩

instance : Inhabited Double := ⟨zero⟩

/-! ## The parts of the bit pattern -/

def isNegative (d : Double) : Bool := d.bits >>> 63 == 1

def biasedExponent (d : Double) : Nat := ((d.bits >>> 52) &&& 0x7ff).toNat

def fraction (d : Double) : Nat := (d.bits &&& 0xfffffffffffff).toNat

def isFinite (d : Double) : Bool := d.biasedExponent != 0x7ff

def isNaN (d : Double) : Bool := !d.isFinite && d.fraction != 0

/-- The magnitude of a finite number is `significand * 2 ^ scale`. -/
def significand (d : Double) : Nat :=
  if d.biasedExponent = 0 then d.fraction else 0x10000000000000 + d.fraction

def scale (d : Double) : Int :=
  if d.biasedExponent = 0 then -1074 else (d.biasedExponent : Int) - 1075

/-- Changes the sign, of NaN too. -/
def neg (d : Double) : Double := ⟨d.bits ^^^ 0x8000000000000000⟩

def abs (d : Double) : Double := ⟨d.bits &&& 0x7fffffffffffffff⟩

/-! ## Arithmetic and comparison -/

def add (a b : Double) : Double := ofFloat (a.toFloat + b.toFloat)
def sub (a b : Double) : Double := ofFloat (a.toFloat - b.toFloat)
def mul (a b : Double) : Double := ofFloat (a.toFloat * b.toFloat)
def div (a b : Double) : Double := ofFloat (a.toFloat / b.toFloat)

instance : Add Double := ⟨add⟩
instance : Sub Double := ⟨sub⟩
instance : Mul Double := ⟨mul⟩
instance : Div Double := ⟨div⟩

/-- False whenever a NaN takes part. -/
def lt (a b : Double) : Bool := decide (a.toFloat < b.toFloat)

/-- Equality of numbers: the two zeros are equal and NaN equals nothing. -/
def numEq (a b : Double) : Bool := a.toFloat == b.toFloat

def ofNat (n : Nat) : Double := ofFloat (Float.ofNat n)

def ofInt (i : Int) : Double := ofFloat (Float.ofInt i)

/-! ## Whole numbers -/

/-- The nearest whole number to the magnitude of a finite number, halves away from zero. -/
def roundedMagnitude (d : Double) : Nat :=
  if 0 ≤ d.scale then d.significand * Nat.pow 2 d.scale.toNat
  else
    let unit := Nat.pow 2 (-d.scale).toNat
    (2 * d.significand + unit) / (2 * unit)

/-- The nearest signed 64-bit whole number, halves away from zero; numbers beyond the range go
to its end, and NaN to zero. -/
def toInt64 (d : Double) : Int :=
  if d.isNaN then 0
  else if d.isNegative then
    if d.isFinite then max (-(d.roundedMagnitude : Int)) (-Text.int64End)
    else -Text.int64End
  else
    if d.isFinite then min (d.roundedMagnitude : Int) (Text.int64End - 1)
    else Text.int64End - 1

end Double
end ShotTally
