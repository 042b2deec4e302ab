/-
A binary form of exact numbers: the numerator, its sign and the denominator, each counted out. Every
number fits.
-/
import Mathlib.Data.Rat.Defs
import ShotTally.Proofs.Codec.RoundTrip

namespace ShotTally.Binary

/-! ## Counting -/

/-- A number as that many bytes before a zero. -/
def counted (n : Nat) : List UInt8 := List.replicate n 1 ++ [0]

/-- Counts the bytes before a zero. -/
def count : List UInt8 → Option (Nat × List UInt8)
  | [] => none
  | b :: rest => if b = 0 then some (0, rest) else (count rest).map fun (n, rest) => (n + 1, rest)

def readCounted : Decoder Nat := count

theorem takes_readCounted (n : Nat) : Takes readCounted (counted n) n := by
  intro rest
  show count (counted n ++ rest) = some (n, rest)
  induction n with
  | zero => rfl
  | succ n ih =>
    show (count (counted n ++ rest)).map (fun (n, rest) => (n + 1, rest)) = _
    rw [ih]
    rfl

/-! ## Exact numbers -/

instance : Binary ℚ where
  encode x := counted x.num.natAbs ++ (counted (if x.num < 0 then 1 else 0) ++ counted x.den)
  decode := do
    let magnitude ← readCounted
    let sign ← readCounted
    let den ← readCounted
    return mkRat (if sign = 0 then magnitude else -magnitude) den

/-- A number is put together from its parts. -/
theorem mkRat_parts (x : ℚ) :
    mkRat (if (if x.num < 0 then 1 else 0) = 0 then (x.num.natAbs : Int) else -x.num.natAbs) x.den = x := by
  have hnum : (if (if x.num < 0 then 1 else 0) = 0 then (x.num.natAbs : Int) else -x.num.natAbs) = x.num := by
    by_cases h : x.num < 0
    · rw [if_pos h, if_neg (by decide)]
      omega
    · rw [if_neg h, if_pos rfl]
      omega
  rw [hnum, Rat.mkRat_self]

instance : Lawful ℚ where
  Fits _ := True
  takes {x} _ := by
    have h : Takes decode (encode x)
        (mkRat (if (if x.num < 0 then 1 else 0) = 0 then (x.num.natAbs : Int) else -x.num.natAbs) x.den) :=
      .bind (takes_readCounted _) (.bind (takes_readCounted _) ((takes_readCounted _).map _))
    rwa [mkRat_parts] at h

instance (x : ℚ) : Decidable (Fits x) := .isTrue trivial

end ShotTally.Binary
