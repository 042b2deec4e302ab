/-
The numbers that a decimal reads back to. The points halfway between neighbouring magnitudes increase
strictly, so no decimal reads back to two magnitudes; and the digits printed of a magnitude read back to it.
-/
import Mathlib.Algebra.Order.Field.Power
import Mathlib.Data.Rat.Cast.Order
import Mathlib.Tactic.FieldSimp
import Mathlib.Tactic.GCongr
import Mathlib.Tactic.Linarith
import Mathlib.Tactic.NormNum
import Mathlib.Tactic.Positivity
import Mathlib.Tactic.Ring
import ShotTally.Decimal.Shortest
import ShotTally.Proofs.Number.Bits

namespace ShotTally

/-! ## Values -/

namespace Decimal

/-- The number that a decimal stands for. -/
def value (d : Decimal) : ℚ := d.digits * 10 ^ d.exponent

/-- The powers that are multiplied in bring both sides to whole numbers. -/
theorem mul_zpow_toNat {b : ℚ} (hb : b ≠ 0) (a : ℚ) (i : Int) : a * b ^ i * b ^ (-i).toNat = a * b ^ i.toNat := by
  rw [mul_assoc, ← zpow_natCast, ← zpow_natCast, ← zpow_add₀ hb]
  congr 2
  omega

theorem compareScaled_eq (a : Nat) (i : Int) (b : Nat) (j : Int) :
    compareScaled a i b j = compare ((a : ℚ) * 10 ^ i) (b * 2 ^ j) := by
  have hscale : (0 : ℚ) < 10 ^ (-i).toNat * 2 ^ (-j).toNat := by positivity
  have hleft : (a : ℚ) * 10 ^ i * (10 ^ (-i).toNat * 2 ^ (-j).toNat) =
      (a * Nat.pow 10 i.toNat * Nat.pow 2 (-j).toNat : Nat) := by
    rw [← mul_assoc, mul_zpow_toNat (by norm_num)]
    simp
  have hright : (b : ℚ) * 2 ^ j * (10 ^ (-i).toNat * 2 ^ (-j).toNat) =
      (b * Nat.pow 2 j.toNat * Nat.pow 10 (-i).toNat : Nat) := by
    rw [mul_comm (10 ^ (-i).toNat : ℚ), ← mul_assoc, mul_zpow_toNat (by norm_num)]
    simp
  rw [compareScaled]
  generalize a * Nat.pow 10 i.toNat * Nat.pow 2 (-j).toNat = m at hleft ⊢
  generalize b * Nat.pow 2 j.toNat * Nat.pow 10 (-i).toNat = n at hright ⊢
  rw [← cmp_eq_compare, ← cmp_eq_compare, ← cmp_mul_pos_right hscale, hleft, hright, Nat.strictMono_cast.cmp_map_eq]

end Decimal

/-! ## Rounding -/

namespace Double

/-- The point halfway to the next lower magnitude, in quarters of the last place. -/
def lowEnd (x : Double) : Nat :=
  if x.fraction == 0 && decide (1 < x.biasedExponent) then 4 * x.significand - 1 else 4 * x.significand - 2

/-- A value rounds to the magnitude of a number. -/
structure Attracts (x : Double) (v : ℚ) : Prop where
  low : x.lowEnd * 2 ^ (x.scale - 2) < v ∨ Even x.significand ∧ v = x.lowEnd * 2 ^ (x.scale - 2)
  high : v < (4 * x.significand + 2 : Nat) * 2 ^ (x.scale - 2) ∨
    Even x.significand ∧ v = (4 * x.significand + 2 : Nat) * 2 ^ (x.scale - 2)

theorem readsBack_iff {x : Double} {d : Decimal} : Decimal.readsBack x d = true ↔ x.Attracts d.value := by
  have heven : (x.significand % 2 == 0) = true ↔ Even x.significand := by rw [beq_iff_eq, Nat.even_iff]
  have hlow : Decimal.compareScaled d.digits d.exponent x.lowEnd (x.scale - 2) = _ := Decimal.compareScaled_eq ..
  have hhigh : Decimal.compareScaled d.digits d.exponent (4 * x.significand + 2) (x.scale - 2) = _ :=
    Decimal.compareScaled_eq ..
  simp only [Decimal.readsBack]
  rw [← lowEnd, hlow, hhigh, ← Decimal.value]
  simp only [Bool.and_eq_true, Bool.or_eq_true, beq_iff_eq, heven, compare_gt_iff_gt, compare_lt_iff_lt,
    compare_eq_iff_eq]
  exact ⟨fun ⟨hl, hh⟩ => ⟨hl, hh⟩, fun ⟨hl, hh⟩ => ⟨hl, hh⟩⟩

/-! ## Places -/

/-- The point halfway between the magnitude at a place and the next one, in units of half the least magnitude. -/
def halfway (place : Nat) : Nat :=
  if place < 2 ^ 52 then 2 * place + 1 else (2 ^ 53 + 2 * (place % 2 ^ 52) + 1) * 2 ^ (place / 2 ^ 52 - 1)

theorem halfway_strictMono : StrictMono halfway := by
  refine strictMono_nat_of_lt_succ fun m => ?_
  unfold halfway
  by_cases hsub : m + 1 < 2 ^ 52
  · rw [if_pos (by omega), if_pos hsub]
    omega
  by_cases hfirst : m < 2 ^ 52
  · obtain rfl : m = 2 ^ 52 - 1 := by omega
    decide
  rw [if_neg hfirst, if_neg hsub]
  by_cases hlast : (m + 1) % 2 ^ 52 = 0
  · -- the next magnitude is a power of two
    have hexp : (m + 1) / 2 ^ 52 - 1 = (m / 2 ^ 52 - 1) + 1 := by omega
    have hfrac : m % 2 ^ 52 = 2 ^ 52 - 1 := by omega
    rw [hlast, hexp, hfrac, pow_succ' 2 (m / 2 ^ 52 - 1), ← mul_assoc]
    exact Nat.mul_lt_mul_of_pos_right (by norm_num) (by positivity)
  · have hexp : (m + 1) / 2 ^ 52 - 1 = m / 2 ^ 52 - 1 := by omega
    rw [hexp]
    exact Nat.mul_lt_mul_of_pos_right (by omega) (by positivity)

/-- The parts of the magnitude at a place. -/
theorem place_cases (x : Double) : (x.place < 2 ^ 52 ∧ x.biasedExponent = 0 ∧ x.fraction = x.place) ∨
    (2 ^ 52 ≤ x.place ∧ x.biasedExponent = x.place / 2 ^ 52 ∧ x.fraction = x.place % 2 ^ 52) := by
  have hf := x.fraction_lt
  rw [place]
  omega

theorem mul_zpow_of_halfway {place a k : Nat} {j : Int} (h : a * 2 ^ k = 2 * halfway place) (hj : j = k - 1076) :
    (a : ℚ) * 2 ^ j = halfway place * 2 ^ (-1075 : Int) := by
  have hq : (a : ℚ) * 2 ^ k = 2 * halfway place := by exact_mod_cast h
  have hj' : j = (k : Int) + (-1075 - 1) := by omega
  rw [hj', zpow_add₀ two_ne_zero, zpow_natCast, ← mul_assoc, hq, zpow_sub_one₀ two_ne_zero, mul_comm (2 : ℚ), mul_assoc]
  congr 1
  rw [mul_comm, mul_assoc, inv_mul_cancel₀ two_ne_zero, mul_one]

theorem highEnd_eq (x : Double) :
    ((4 * x.significand + 2 : Nat) : ℚ) * 2 ^ (x.scale - 2) = halfway x.place * 2 ^ (-1075 : Int) := by
  rcases x.place_cases with ⟨hp, he, hf⟩ | ⟨hp, he, hf⟩
  · refine mul_zpow_of_halfway (k := 0) ?_ ?_
    · rw [halfway, if_pos hp, significand, if_pos he, hf]
      ring
    · rw [scale, if_pos he]
      rfl
  · have he0 : x.biasedExponent ≠ 0 := by omega
    refine mul_zpow_of_halfway (k := x.biasedExponent - 1) ?_ ?_
    · rw [halfway, if_neg (by omega), significand, if_neg he0, ← he, hf]
      ring
    · rw [scale, if_neg he0]
      omega

theorem lowEnd_eq {x : Double} (h : 0 < x.place) :
    (x.lowEnd : ℚ) * 2 ^ (x.scale - 2) = halfway (x.place - 1) * 2 ^ (-1075 : Int) := by
  rcases x.place_cases with ⟨hp, he, hf⟩ | ⟨hp, he, hf⟩
  · have hwide : x.lowEnd = 4 * x.place - 2 := by
      simp [lowEnd, significand, he, hf]
    refine mul_zpow_of_halfway (k := 0) ?_ ?_
    · rw [halfway, if_pos (by omega), hwide]
      omega
    · rw [scale, if_pos he]
      rfl
  have he0 : x.biasedExponent ≠ 0 := by omega
  refine mul_zpow_of_halfway (k := x.biasedExponent - 1) ?_ ?_
  · rw [lowEnd, significand, if_neg he0]
    split
    · -- the next lower magnitude has the exponent below
      rename_i hnarrow
      rw [Bool.and_eq_true, beq_iff_eq, decide_eq_true_eq] at hnarrow
      obtain ⟨hzero, hexp⟩ := hnarrow
      have hdiv : (x.place - 1) / 2 ^ 52 - 1 = x.biasedExponent - 2 := by omega
      have hmod : (x.place - 1) % 2 ^ 52 = 2 ^ 52 - 1 := by omega
      obtain ⟨k, hk⟩ : ∃ k, x.biasedExponent = k + 2 := ⟨x.biasedExponent - 2, by omega⟩
      rw [halfway, if_neg (by omega), hdiv, hmod, hzero, hk]
      norm_num [pow_succ]
      ring
    · rename_i hwide
      rw [Bool.and_eq_true, beq_iff_eq, decide_eq_true_eq, not_and_or] at hwide
      by_cases hzero : x.fraction = 0
      · -- the least number with an exponent of its own
        have hone : x.biasedExponent = 1 := by omega
        have hplace : x.place = 2 ^ 52 := by omega
        rw [hplace, hone, hzero]
        rfl
      · have hdiv : (x.place - 1) / 2 ^ 52 = x.biasedExponent := by omega
        have hmod : (x.place - 1) % 2 ^ 52 = x.fraction - 1 := by omega
        have hsum : 4 * (0x10000000000000 + x.fraction) - 2 = 2 * (2 ^ 53 + 2 * (x.fraction - 1) + 1) := by omega
        rw [halfway, if_neg (by omega), hdiv, hmod, hsum, mul_assoc]
  · rw [scale, if_neg he0]
    omega

theorem even_significand {x : Double} : Even x.significand ↔ Even x.place := by
  rw [significand, place, Nat.even_iff, Nat.even_iff]
  split <;> omega

/-! ## What rounds to a magnitude -/

section

variable {x y : Double} {v : ℚ}

theorem Attracts.le_halfway (h : x.Attracts v) :
    v < halfway x.place * 2 ^ (-1075 : Int) ∨ Even x.place ∧ v = halfway x.place * 2 ^ (-1075 : Int) := by
  rw [← highEnd_eq, ← even_significand]
  exact h.high

theorem Attracts.halfway_le (h : x.Attracts v) (hx : 0 < x.place) :
    halfway (x.place - 1) * 2 ^ (-1075 : Int) < v ∨ Even x.place ∧ v = halfway (x.place - 1) * 2 ^ (-1075 : Int) := by
  rw [← lowEnd_eq hx, ← even_significand]
  exact h.low

theorem Attracts.place_le (hx : x.Attracts v) (hy : y.Attracts v) : y.place ≤ x.place := by
  by_contra hlt
  have hunit : (0 : ℚ) < 2 ^ (-1075 : Int) := by positivity
  have hmono : (halfway x.place : ℚ) * 2 ^ (-1075 : Int) ≤ halfway (y.place - 1) * 2 ^ (-1075 : Int) :=
    mul_le_mul_of_nonneg_right (Nat.cast_le.2 (halfway_strictMono.monotone (by omega))) hunit.le
  rcases hx.le_halfway with hv | ⟨hevenx, hv⟩ <;> rcases hy.halfway_le (by omega) with hv' | ⟨heveny, hv'⟩
  · exact absurd (hv.trans_le hmono) hv'.not_gt
  · exact absurd (hv.trans_le hmono) hv'.not_lt
  · exact absurd (hv.trans_le hmono) hv'.not_ge
  · -- a point halfway belongs to the even one of its neighbours
    have hsame : halfway x.place = halfway (y.place - 1) := by
      exact_mod_cast mul_right_cancel₀ hunit.ne' (hv.symm.trans hv')
    have hnext := halfway_strictMono.injective hsame
    rw [Nat.even_iff] at hevenx heveny
    omega

/-- No value rounds to two magnitudes. -/
theorem Attracts.place_eq (hx : x.Attracts v) (hy : y.Attracts v) : x.place = y.place :=
  le_antisymm (hy.place_le hx) (hx.place_le hy)

end

end Double

/-! ## The shortest decimal -/

namespace Decimal

variable {x : Double}

theorem value_exact (x : Double) : (exact x).value = x.significand * 2 ^ x.scale := by
  unfold exact value
  split
  · rename_i h
    obtain ⟨n, hn⟩ := Int.eq_ofNat_of_zero_le h
    rw [hn]
    simp
  · rename_i h
    obtain ⟨n, hn⟩ : ∃ n : Nat, x.scale = -n := ⟨(-x.scale).toNat, by omega⟩
    rw [hn, neg_neg, Int.toNat_natCast, zpow_neg, zpow_neg, zpow_natCast, zpow_natCast]
    have hten : (10 : ℚ) ^ n = 5 ^ n * 2 ^ n := by rw [← mul_pow]; norm_num
    rw [hten, Nat.cast_mul]
    simp only [Nat.pow_eq, Nat.cast_pow, Nat.cast_ofNat]
    field_simp

/-- The exact value of a number rounds to its magnitude. -/
theorem attracts_exact (h : x.significand ≠ 0) : x.Attracts (exact x).value := by
  have hunit : (0 : ℚ) < 2 ^ (x.scale - 2) := by positivity
  have hvalue : (exact x).value = (4 * x.significand : Nat) * 2 ^ (x.scale - 2) := by
    rw [value_exact, zpow_sub₀ two_ne_zero]
    push_cast
    ring
  have hlow : x.lowEnd < 4 * x.significand := by
    rw [Double.lowEnd]
    split <;> omega
  rw [hvalue]
  exact ⟨.inl (mul_lt_mul_of_pos_right (Nat.cast_lt.2 hlow) hunit),
    .inl (mul_lt_mul_of_pos_right (Nat.cast_lt.2 (by omega)) hunit)⟩

theorem attracts_zero (h : x.significand = 0) : x.Attracts 0 := by
  have hlow : x.lowEnd = 0 := by
    rw [Double.lowEnd, h]
    split <;> rfl
  refine ⟨.inr ⟨by rw [h]; exact .zero, ?_⟩, .inl ?_⟩
  · rw [hlow, Nat.cast_zero, zero_mul]
  · positivity

theorem value_strip : ∀ (fuel : Nat) (d : Decimal), (strip fuel d).value = d.value
  | 0, _ => rfl
  | fuel + 1, d => by
    rw [strip]
    split
    · rename_i h
      have hdigits : (d.digits : ℚ) = (d.digits / 10 : Nat) * 10 := by exact_mod_cast (show d.digits = _ by omega)
      rw [value_strip fuel, value, value, hdigits, zpow_add_one₀ (by norm_num)]
      ring
    · rfl

theorem readsBack_of_onGrid {tie : Tie} {p : Int} {d : Decimal} (h : onGrid tie x p = some d) :
    readsBack x d = true := by
  unfold onGrid at h
  dsimp only at h
  split at h
  · rename_i hlower _
    cases h
    exact hlower
  · rename_i _ hupper
    cases h
    exact hupper
  · cases h
  · -- both read back, and so does the one that is taken
    rename_i hlower hupper
    repeat' split at h
    all_goals
      cases h
      first | exact hlower | exact hupper

/-- What is printed of a number rounds to its magnitude. -/
theorem attracts_shortest (tie : Tie) (x : Double) : x.Attracts (shortest tie x).value := by
  unfold shortest
  split
  · rename_i h
    rw [value, Nat.cast_zero, zero_mul]
    exact attracts_zero h
  · rename_i h
    rw [value_strip]
    cases hfound : (List.range 17).findSome? fun (n : Nat) => onGrid tie x (magnitudeEnd x - 1 - (n : Int)) with
    | none => exact attracts_exact h
    | some d =>
      obtain ⟨n, -, hd⟩ := List.exists_of_findSome?_eq_some hfound
      exact Double.readsBack_iff.1 (readsBack_of_onGrid hd)

/-- Numbers of one sign whose printed decimals stand for one value are equal. -/
theorem eq_of_shortest {tie : Tie} {x y : Double} (hsign : x.isNegative = y.isNegative)
    (h : (shortest tie x).value = (shortest tie y).value) : x = y := by
  have hx := attracts_shortest tie x
  rw [h] at hx
  exact Double.eq_of_place hsign (hx.place_eq (attracts_shortest tie y))

end Decimal

end ShotTally
