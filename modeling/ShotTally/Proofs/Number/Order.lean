/-
The order and the equality of numbers. Each number that is not NaN has a rank, by its sign, its exponent and its digits,
and one number is below another exactly if both have ranks and the one rank is below the other. Two numbers that are not
NaN are equal exactly if they have the same bits or are the two zeros.
-/
import Mathlib.Data.Prod.Lex
import Mathlib.Algebra.Order.Group.Int
import ShotTally.Proofs.Number.Packing

namespace ShotTally.Double

open Float.Model (UnpackedFloat)
open Float.Model.UnpackedFloat (Sign)

/-- Ranks, compared from left to right. -/
abbrev Rank := ℤ ×ₗ ℤ ×ₗ ℤ

/-- The rank of a number, unless it is NaN. Both zeros have one rank. -/
def rankOf : UnpackedFloat → Option Rank
  | .notANumber => none
  | .infinity .negative => some (toLex (-2, toLex (0, 0)))
  | .finite .negative m e _ => some (toLex (-1, toLex (-e, -m)))
  | .zero _ => some (toLex (0, toLex (0, 0)))
  | .finite .positive m e _ => some (toLex (1, toLex (e, m)))
  | .infinity .positive => some (toLex (2, toLex (0, 0)))

def rank (x : Double) : Option Rank := rankOf x.unpacked

theorem rankOf_eq_none {u : UnpackedFloat} : rankOf u = none ↔ u = .notANumber := by
  cases u with
  | notANumber => simp [rankOf]
  | zero => simp [rankOf]
  | infinity sign => cases sign <;> simp [rankOf]
  | finite sign => cases sign <;> simp [rankOf]

theorem rank_eq_none {x : Double} : x.rank = none ↔ x.isNaN = true := by
  rw [isNaN_iff, rank, rankOf_eq_none]

theorem then_eq_lt {e e' : Int} {m m' : Nat} :
    (compare e e').then (compare m m') = .lt ↔ e < e' ∨ e = e' ∧ m < m' := by
  rw [Ordering.then_eq_lt, compare_lt_iff_lt, compare_eq_iff_eq, compare_lt_iff_lt]

theorem then_eq_gt {e e' : Int} {m m' : Nat} :
    (compare e e').then (compare m m') = .gt ↔ e' < e ∨ e = e' ∧ m' < m := by
  rw [Ordering.then_eq_gt, compare_gt_iff_gt, compare_eq_iff_eq, compare_gt_iff_gt]

theorem lt_rankOf (u v : UnpackedFloat) : u.lt v = true ↔ ∃ x ∈ rankOf u, ∃ y ∈ rankOf v, x < y := by
  have hsigns : compare Sign.negative Sign.positive = .lt := rfl
  -- every pair of kinds; between two finite numbers of one sign exponents and digits decide
  rcases u with ⟨⟨⟩⟩ | _ | _ | ⟨⟨⟩, m, e, h⟩ <;> rcases v with ⟨⟨⟩⟩ | _ | _ | ⟨⟨⟩, m', e', h'⟩ <;>
    simp [rankOf, UnpackedFloat.lt, UnpackedFloat.compare, Prod.Lex.toLex_lt_toLex, hsigns, then_eq_lt, then_eq_gt]

/-- One number is below another if its rank is. -/
theorem lt_iff_rank {x y : Double} : x.lt y = true ↔ ∃ r ∈ x.rank, ∃ s ∈ y.rank, r < s := by
  have hlt : x.toFloat < y.toFloat ↔ x.unpacked.lt y.unpacked = true := decide_eq_true_iff
  rw [Double.lt, decide_eq_true_iff, hlt, lt_rankOf]
  rfl

/-! ## Equality -/

theorem isNaN_iff_toFloat {x : Double} : x.isNaN = true ↔ x.toFloat = Float.nan := by
  rw [isNaN_iff, ← decide_eq_true_iff (p := x.toFloat = Float.nan), ← Float.isNaN_eq_decide_eq_nan]
  exact (UnpackedFloat.isNaN_iff (x := x.unpacked)).symm

/-- Only the bits of NaN are lost in arithmetic. -/
theorem ofFloat_toFloat {x : Double} (h : x.isNaN = false) : ofFloat x.toFloat = x := by
  have hbits : @UnpackedFloat.isNaNBits .binary64 x.bits.toBitVec = false := by
    refine decide_eq_false fun ⟨hexponent, hmantissa⟩ => ?_
    have hfinite := unpackExponent_eq_ones.1 hexponent
    have hnan : UnpackedFloat.unpack .binary64 x.bits.toBitVec = .notANumber := by
      unfold UnpackedFloat.unpack
      dsimp only
      rw [if_pos hexponent, if_neg hmantissa]
    rw [unpack_eq_notANumber, h] at hnan
    cases hnan
  have hpack := @UnpackedFloat.pack_unpack .binary64 x.bits.toBitVec
  rw [hbits, if_neg Bool.false_ne_true] at hpack
  exact congrArg Double.mk (UInt64.toBitVec_inj.1 hpack)

theorem toFloat_inj {x y : Double} (hx : x.isNaN = false) (hy : y.isNaN = false) : x.toFloat = y.toFloat ↔ x = y := by
  refine ⟨fun h => ?_, congrArg toFloat⟩
  rw [← ofFloat_toFloat hx, h, ofFloat_toFloat hy]

/-- The two zeros, in either order. -/
def OppositeZeros (x y : Double) : Prop := x = zero ∧ y = negZero ∨ x = negZero ∧ y = zero

instance (x y : Double) : Decidable (OppositeZeros x y) := inferInstanceAs (Decidable (_ ∨ _))

/-- Numbers are equal if they are the same or the two zeros, and NaN equals nothing. -/
theorem numEq_iff {x y : Double} :
    x.numEq y = true ↔ x.isNaN = false ∧ y.isNaN = false ∧ (x = y ∨ OppositeZeros x y) := by
  have hnan : ∀ z : Double, z.toFloat ≠ Float.nan ↔ z.isNaN = false := fun z => by
    rw [Ne, ← isNaN_iff_toFloat, Bool.not_eq_true]
  have hzero : (0 : Float) = zero.toFloat := by decide +kernel
  have hneg : (-0 : Float) = negZero.toFloat := by decide +kernel
  rw [numEq, Float.beq_iff_ne_nan_and_eq, hnan, hnan, hneg, hzero]
  refine and_congr_right fun hx => and_congr_right fun hy => ?_
  rw [toFloat_inj hx hy, toFloat_inj hx rfl, toFloat_inj hx rfl, toFloat_inj hy rfl, toFloat_inj hy rfl, OppositeZeros]

end ShotTally.Double
