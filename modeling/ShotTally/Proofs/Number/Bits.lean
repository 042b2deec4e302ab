/-
The bit pattern of a number. The sign, the exponent and the fraction are its digits, and the exponent with the
fraction is the place of the magnitude among all magnitudes; so the sign and the place say which number it is.
-/
import Mathlib.Data.Nat.Bitwise
import ShotTally.Number.Double

namespace ShotTally.Double

theorem biasedExponent_eq (x : Double) : x.biasedExponent = x.bits.toNat / 2 ^ 52 % 2 ^ 11 := by
  have hmask : (0x7ff : UInt64).toNat = 2 ^ 11 - 1 := rfl
  rw [biasedExponent, UInt64.toNat_and, UInt64.toNat_shiftRight, hmask, Nat.and_two_pow_sub_one_eq_mod]
  exact congrArg (· % 2 ^ 11) (Nat.shiftRight_eq_div_pow _ _)

theorem fraction_eq (x : Double) : x.fraction = x.bits.toNat % 2 ^ 52 := by
  have hmask : (0xfffffffffffff : UInt64).toNat = 2 ^ 52 - 1 := rfl
  rw [fraction, UInt64.toNat_and, hmask, Nat.and_two_pow_sub_one_eq_mod]

theorem isNegative_eq (x : Double) : x.isNegative = decide (x.bits.toNat / 2 ^ 63 = 1) := by
  have hshift : (x.bits >>> 63).toNat = x.bits.toNat / 2 ^ 63 := by
    rw [UInt64.toNat_shiftRight]
    exact Nat.shiftRight_eq_div_pow _ _
  rw [isNegative, ← hshift, beq_eq_decide]
  exact decide_eq_decide.2 UInt64.toNat_inj.symm

theorem fraction_lt (x : Double) : x.fraction < 2 ^ 52 := by
  rw [fraction_eq]
  omega

theorem isFinite_eq_false {x : Double} : x.isFinite = false ↔ x.biasedExponent = 0x7ff := by
  rw [isFinite, bne_eq_false_iff_eq]

/-- The place of the magnitude of a number among all magnitudes. -/
def place (x : Double) : Nat := 2 ^ 52 * x.biasedExponent + x.fraction

/-- Numbers of one sign whose magnitudes are at one place are equal. -/
theorem eq_of_place {x y : Double} (hsign : x.isNegative = y.isNegative) (hplace : x.place = y.place) : x = y := by
  have hbits : x.bits.toNat = y.bits.toNat := by
    rw [isNegative_eq, isNegative_eq, decide_eq_decide] at hsign
    rw [place, place, biasedExponent_eq, biasedExponent_eq, fraction_eq, fraction_eq] at hplace
    have hx := x.bits.toNat_lt
    have hy := y.bits.toNat_lt
    omega
  exact congrArg Double.mk (UInt64.toNat_inj.1 hbits)

/-- The infinities are beyond all other magnitudes. -/
theorem place_of_infinite {x : Double} (hfinite : x.isFinite = false) (hnan : x.isNaN = false) :
    x.place = 2 ^ 52 * 0x7ff := by
  have hfraction : x.fraction = 0 := by simpa [isNaN, hfinite] using hnan
  rw [place, isFinite_eq_false.1 hfinite, hfraction, Nat.add_zero]

end ShotTally.Double
