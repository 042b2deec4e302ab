/-
Sums of magnitudes, and how many there are. Rounding keeps the sign, so a sum of magnitudes is positive and is NaN
only if one of them is; and a count that a machine word holds is rounded to a number that is finite and not zero, so
dividing by it makes no NaN.
-/
import ShotTally.Proofs.Number.Packing

namespace ShotTally.Double

open Float.Model (UnpackedFloat)
open Float.Model.UnpackedFloat (Sign pack unpack Accuracy ExtendedMantissa roundWithAccuracy
  shiftToTargetExponent shiftToExponent)

/-! ## Signs of results -/

theorem signed_roundWithAccuracy (sign : Sign) (m : Nat) (e : Int) (a : Accuracy) :
    Signed sign (roundWithAccuracy .binary64 sign m e a) := by
  unfold roundWithAccuracy
  dsimp only
  split
  · exact .zero
  · exact .finite ..

theorem signed_normalize {m : Int} (h : 0 ≤ m) (e : Int) :
    Signed .positive (UnpackedFloat.normalize .binary64 m e .positive) := by
  unfold UnpackedFloat.normalize
  split
  · rename_i hlt
    exact absurd (Int.compare_eq_lt.1 hlt) (Int.not_lt.2 h)
  · exact .zero
  · exact signed_roundWithAccuracy ..

theorem Signed.add {u v : UnpackedFloat} (hu : Signed .positive u) (hv : Signed .positive v) :
    Signed .positive (u.add .binary64 v) := by
  cases hu with
  | infinity => cases hv <;> exact .infinity
  | zero =>
    cases hv with
    | infinity => exact .infinity
    | zero => exact .zero
    | finite m e h => exact .finite m e h
  | finite m e h =>
    cases hv with
    | infinity => exact .infinity
    | zero => exact .finite m e h
    | finite m' e' h' =>
      refine signed_normalize ?_ _
      exact Int.add_nonneg (Int.natCast_nonneg _) (Int.natCast_nonneg _)

theorem Signed.div {u : UnpackedFloat} {m : Nat} {e : Int} {h : 0 < m} (hu : Signed .positive u) :
    Signed .positive (u.div .binary64 (.finite .positive m e h)) := by
  cases hu with
  | infinity => exact .infinity
  | zero => exact .zero
  | finite => exact signed_roundWithAccuracy ..

/-! ## NaN -/

variable {x y : Double}

theorem isNaN_packed : (packed .notANumber).isNaN = true := by decide

theorem isNaN_add (h : x.isNaN = true ∨ y.isNaN = true) : (x + y).isNaN = true := by
  have hsum : x.unpacked.add .binary64 y.unpacked = .notANumber := by
    rcases h with h | h
    · rw [(isNaN_iff x).1 h]
      rfl
    · rw [(isNaN_iff y).1 h]
      cases x.unpacked <;> rfl
  have hpacked : x + y = packed (x.unpacked.add .binary64 y.unpacked) := rfl
  rw [hpacked, hsum]
  exact isNaN_packed

theorem isNaN_div (h : x.isNaN = true) : (x / y).isNaN = true := by
  have hquotient : x.unpacked.div .binary64 y.unpacked = .notANumber := by
    rw [(isNaN_iff x).1 h]
    rfl
  have hpacked : x / y = packed (x.unpacked.div .binary64 y.unpacked) := rfl
  rw [hpacked, hquotient]
  exact isNaN_packed

/-! ## Counts -/

theorem mantissa_shiftRight (em : ExtendedMantissa) (k : Nat) : (em >>> k).mantissa = em.mantissa / 2 ^ k := by
  induction k with
  | zero => exact (Nat.div_one _).symm
  | succ k ih =>
    show (em >>> k).mantissa / 2 = _
    rw [ih, Nat.div_div_eq_div_mul, Nat.pow_succ]

theorem roundedMantissa_bounds (em : ExtendedMantissa) :
    em.mantissa ≤ em.roundedMantissa ∧ em.roundedMantissa ≤ em.mantissa + 1 := by
  have heven := Nat.mod_lt em.mantissa Nat.two_pos
  unfold ExtendedMantissa.roundedMantissa
  cases em.accuracy with
  | exact => exact ⟨le_rfl, Nat.le_succ _⟩
  | inexact order => cases order <;> simp only [Accuracy.roundToNearestEven] <;> omega

/-- The leading fifty-three digits. -/
theorem log2_leading {m : Nat} (hm : 52 ≤ m.log2) : (m / 2 ^ (m.log2 - 52)).log2 = 52 := by
  simp only [Nat.log2_eq_log_two] at hm ⊢
  rw [Nat.log_div_base_pow]
  omega

theorem shiftToTargetExponent_eq {m : Nat} {e : Int} (a : Accuracy) (hm : 52 ≤ m.log2)
    (he : -1022 ≤ (m.log2 : Int) + e) :
    shiftToTargetExponent .binary64 m e a =
      (ExtendedMantissa.ofMantissaAndAccuracy m a >>> (m.log2 - 52), (m.log2 : Int) + e - 52) := by
  have htarget : Float.Model.Format.binary64.targetExponent (Float.Model.totalExponent m e) =
      (m.log2 : Int) + e - 52 := by
    show max ((m.log2 : Int) + 1 + e - 53) (-1074) = _
    omega
  have hshift : ((m.log2 : Int) + e - 52 - e).toNat = m.log2 - 52 := by omega
  unfold shiftToTargetExponent shiftToExponent
  dsimp only
  rw [htarget, hshift]
  congr 1
  omega

theorem mantissa_leading {m : Nat} (a : Accuracy) :
    (ExtendedMantissa.ofMantissaAndAccuracy m a >>> (m.log2 - 52)).mantissa = m / 2 ^ (m.log2 - 52) := by
  rw [mantissa_shiftRight]
  cases a with
  | exact => rfl
  | inexact order => cases order <;> rfl

/-- Digits behind the fifty-third are rounded off, which may carry into one more digit. -/
theorem exists_roundWithAccuracy (sign : Sign) {m : Nat} {e : Int} (a : Accuracy) (hm : 52 ≤ m.log2)
    (he : -1022 ≤ (m.log2 : Int) + e) : ∃ m' e' h, roundWithAccuracy .binary64 sign m e a = .finite sign m' e' h ∧
      m'.log2 = 52 ∧ (m.log2 : Int) + e - 52 ≤ e' ∧ e' ≤ (m.log2 : Int) + e - 51 := by
  have hlead := (Nat.log2_eq_iff fun h => by simpa [h] using log2_leading hm).1 (log2_leading hm)
  have hbounds := roundedMantissa_bounds (ExtendedMantissa.ofMantissaAndAccuracy m a >>> (m.log2 - 52))
  rw [mantissa_leading] at hbounds
  unfold roundWithAccuracy
  rw [shiftToTargetExponent_eq a hm he]
  dsimp only
  generalize (ExtendedMantissa.ofMantissaAndAccuracy m a >>> (m.log2 - 52)).roundedMantissa = r at hbounds ⊢
  -- rounding up may reach the next power of two, and then shifts once more
  have hr : r.log2 = 52 ∨ r.log2 = 53 := by
    rcases Nat.lt_or_ge r (2 ^ 53) with hlt | hge
    · exact .inl ((Nat.log2_eq_iff (by omega)).2 ⟨by omega, hlt⟩)
    · obtain rfl : r = 2 ^ 53 := by omega
      exact .inr Nat.log2_two_pow
  rw [shiftToTargetExponent_eq .exact (by omega) (by omega)]
  dsimp only
  have hfinal : (r / 2 ^ (r.log2 - 52)).log2 = 52 := log2_leading (by omega)
  have hne : r / 2 ^ (r.log2 - 52) ≠ 0 := fun h => by simp [h] at hfinal
  rw [dif_neg (by rwa [mantissa_leading])]
  refine ⟨_, _, _, rfl, ?_, ?_, ?_⟩
  · rwa [mantissa_leading]
  · omega
  · omega

theorem log2_mul_two_pow {m : Nat} (hm : m ≠ 0) (k : Nat) : (m * 2 ^ k).log2 = m.log2 + k := by
  induction k with
  | zero => simp
  | succ k ih =>
    have hne : m * 2 ^ k ≠ 0 := Nat.mul_ne_zero hm (Nat.two_pow_pos k).ne'
    rw [Nat.pow_succ', Nat.mul_left_comm, Nat.log2_two_mul hne, ih, Nat.add_assoc]

/-- A count with no more than fifty-three digits is taken as it is, with zeros behind it. -/
theorem exists_finite_ofNat {n : Nat} (hpos : 0 < n) (h : n < 2 ^ 53) : ∃ m e hm,
    UnpackedFloat.ofNat .binary64 n = .finite .positive m e hm ∧ m.log2 = 52 ∧ -52 ≤ e ∧ e ≤ 1 := by
  have hlog : n.log2 ≤ 52 := Nat.lt_succ_iff.1 ((Nat.log2_lt hpos.ne').2 h)
  have htarget : Float.Model.Format.binary64.targetExponent (Float.Model.totalExponent n 0) = (n.log2 : Int) - 52 := by
    show max ((n.log2 : Int) + 1 + 0 - 53) (-1074) = _
    omega
  have hshift : (0 - ((n.log2 : Int) - 52)).toNat = 52 - n.log2 := by omega
  -- below 2^53 the number is shifted up to a full mantissa, and nothing is rounded
  have hround : UnpackedFloat.ofNat .binary64 n = roundWithAccuracy .binary64 .positive (n <<< (52 - n.log2))
      (0 - ((52 - n.log2 : Nat) : Int)) .exact := by
    have hgt : compare (n : Int) 0 = .gt := Int.compare_eq_gt.2 (by omega)
    simp only [UnpackedFloat.ofNat, UnpackedFloat.ofInt, UnpackedFloat.normalize, hgt, UnpackedFloat.round, htarget,
      UnpackedFloat.decreaseExponent, hshift, Int.toNat_natCast]
  have hlog2 : (n <<< (52 - n.log2)).log2 = 52 := by
    rw [Nat.shiftLeft_eq, log2_mul_two_pow hpos.ne']
    omega
  obtain ⟨m, e, hm, heq, hlog', hlow, hhigh⟩ :=
    exists_roundWithAccuracy (e := 0 - ((52 - n.log2 : Nat) : Int)) .positive
    .exact hlog2.ge (by omega)
  exact ⟨m, e, hm, hround.trans heq, hlog', by omega, by omega⟩

/-- What is rounded within the range of exponents is packed to a finite number. -/
theorem exists_unpacked {m : Nat} {e : Int} (hm : 52 ≤ m.log2) (hlow : -1022 ≤ (m.log2 : Int) + e)
    (hhigh : (m.log2 : Int) + e ≤ 1022) : ∃ m' e' h,
      (packed (roundWithAccuracy .binary64 .positive m e .exact)).unpacked = .finite .positive m' e' h := by
  obtain ⟨m', e', h, heq, hlog, hlow', hhigh'⟩ := exists_roundWithAccuracy .positive .exact hm hlow
  refine ⟨m', e', h, ?_⟩
  rw [unpacked_packed, heq, unpack_pack hlog (by omega) (by omega)]

theorem ofNat_eq {n : Nat} (h : n < 2 ^ 53) : ofNat n =
    packed ((unpack .binary64 (pack .binary64 (.ofNat .binary64 n))).mul .binary64
      (.finite .positive (2 ^ 52) (-52) (Nat.two_pow_pos 52))) := by
  have hfast : Float.ofNat n = n.toUInt64.toFloat * Float.ofBits 0x3FF0000000000000 := dif_pos ⟨h, by omega⟩
  have hword : n.toUInt64.toFloat = .ofModel (.pack (.ofNat .binary64 n.toUInt64.toNat)) := rfl
  have hnat : n.toUInt64.toNat = n := UInt64.toNat_ofNat_of_lt (h.trans (by decide))
  rw [ofNat, hfast, hword, hnat]
  rfl

theorem ofNat_eq_of_le {n : Nat} (h : 2 ^ 53 ≤ n) : ofNat n = packed (.ofScientific .binary64 n 0) := by
  have hslow : Float.ofNat n = .ofModel (Float.Model.ofScientific n 0) := dif_neg (by omega)
  rw [ofNat, hslow]
  rfl

/-- A count that is not zero is a finite number. -/
theorem exists_unpacked_ofNat {n : Nat} (hpos : 0 < n) (h : n < 2 ^ 64) :
    ∃ m e hm, (ofNat n).unpacked = .finite .positive m e hm := by
  rcases Nat.lt_or_ge n (2 ^ 53) with hlt | hge
  · obtain ⟨m, e, hm, heq, hlog, hlow, hhigh⟩ := exists_finite_ofNat hpos hlt
    have hproduct : (m * 2 ^ 52).log2 = 104 := by rw [log2_mul_two_pow hm.ne', hlog]
    rw [ofNat_eq hlt, heq, unpack_pack hlog (by omega) (by omega)]
    exact exists_unpacked (by omega) (by omega) (by omega)
  -- above, it is read as a decimal and rounded
  · have hlog : (n <<< 53 * 10 ^ 0).log2 = n.log2 + 53 := by
      rw [pow_zero, mul_one, Nat.shiftLeft_eq, log2_mul_two_pow hpos.ne']
    have hsmall : n.log2 < 64 := (Nat.log2_lt hpos.ne').2 h
    have hlarge : ¬ (0 : Int) < -(2 ^ 11 + (n.log2 : Int)) := by omega
    have hproduct : UnpackedFloat.ofScientific .binary64 n 0 =
        roundWithAccuracy .binary64 .positive (n <<< 53 * 10 ^ 0) (-53 + 0) .exact := by
      unfold UnpackedFloat.ofScientific
      rw [dif_neg hpos.ne', if_neg (by decide), if_neg hlarge, if_pos (Int.le_refl 0)]
      rfl
    rw [ofNat_eq_of_le hge, hproduct]
    exact exists_unpacked (by omega) (by omega) (by omega)

end ShotTally.Double
