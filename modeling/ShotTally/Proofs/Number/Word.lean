/-
Words hold what is in their range as it is: there arithmetic in words is arithmetic without bounds. Beyond the
range sums and products in words are those without bounds, taken to the range at the end.
-/
import ShotTally.Number.Double
import ShotTally.Number.Word

namespace ShotTally

open Text

namespace Text

theorem isInt64_iff {i : Int} : isInt64 i = true ↔ -int64End ≤ i ∧ i < int64End := by
  rw [isInt64, Bool.and_eq_true, decide_eq_true_eq, decide_eq_true_eq]

end Text

namespace Arithmetic

variable {a : Arithmetic}

/-! ## Signed numbers -/

/-- A word holds a number of its range. -/
theorem signed_of_isInt64 {i : Int} (h : isInt64 i = true) : a.signed i = i := by
  rw [isInt64_iff] at h
  cases a with
  | unbounded => rfl
  | words =>
    simp only [signed, int64End] at h ⊢
    omega

theorem isInt64_signed_words (i : Int) : isInt64 (words.signed i) = true := by
  rw [isInt64_iff]
  simp only [signed, int64End]
  omega

/-- A sum that goes beyond the greatest word is negative. -/
theorem signed_words_of_le {i : Int} (h : int64End ≤ i) (hlt : i < 2 * int64End) :
    words.signed i = i - 2 * int64End := by
  simp only [signed, int64End] at *
  omega

theorem position_of_nonneg {i : Int} (h : 0 ≤ i) (hlt : i < int64End) : a.position i = i.toNat := by
  cases a with
  | unbounded => rfl
  | words =>
    simp only [position, int64End, nat64End] at *
    omega

/-- A negative word is taken as a position in the upper half of the counts. -/
theorem le_position_of_neg {i : Int} (h : i < 0) (hle : -int64End ≤ i) : int64End ≤ words.position i := by
  simp only [position, int64End, nat64End] at *
  omega

theorem position_words_injOn {i j : Int} (hi : isInt64 i = true) (hj : isInt64 j = true)
    (h : words.position i = words.position j) : i = j := by
  rw [isInt64_iff] at hi hj
  simp only [position, int64End, nat64End] at *
  omega

/-! ## Counts -/

theorem count_le (a : Arithmetic) (n : Nat) : a.count n ≤ n := by
  cases a with
  | unbounded => exact Nat.le_refl n
  | words => exact Nat.mod_le n _

theorem count_of_lt {n : Nat} (h : n < nat64End) : a.count n = n := by
  cases a with
  | unbounded => rfl
  | words => exact Nat.mod_eq_of_lt h

@[simp] theorem count_zero (a : Arithmetic) : a.count 0 = 0 := count_of_lt (by decide)

@[simp] theorem count_one (a : Arithmetic) : a.count 1 = 1 := count_of_lt (by decide)

theorem count_words_lt (n : Nat) : words.count n < nat64End := Nat.mod_lt n (by decide)

/-- A product of what is kept is what is kept of the product. -/
theorem count_count_mul (a : Arithmetic) (m n : Nat) : a.count (a.count m * n) = a.count (m * n) := by
  cases a with
  | unbounded => rfl
  | words => exact Nat.mod_mul_mod m n _

theorem count_mul_count (a : Arithmetic) (m n : Nat) : a.count (m * a.count n) = a.count (m * n) := by
  rw [Nat.mul_comm, count_count_mul, Nat.mul_comm]

theorem count_count_add_count (a : Arithmetic) (m n : Nat) : a.count (a.count m + a.count n) = a.count (m + n) := by
  cases a with
  | unbounded => rfl
  | words => exact (Nat.add_mod m n _).symm

end Arithmetic
/-- A double is rounded to a word. -/
theorem Double.isInt64_toInt64 (d : Double) : isInt64 d.toInt64 = true := by
  rw [isInt64_iff]
  unfold toInt64
  simp only [int64End]
  repeat' split
  all_goals omega

end ShotTally
