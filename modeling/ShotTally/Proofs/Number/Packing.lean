/-
Numbers taken apart and put together. A number that is not NaN has a sign, and keeps it when its parts are packed;
a number with as many digits as the format holds, and an exponent within its range, is packed without loss.
-/
import Mathlib
import ShotTally.Proofs.Number.Finiteness

namespace ShotTally.Double

open Float.Model (UnpackedFloat)
open Float.Model.UnpackedFloat (Sign pack unpack packComponents unpackSign unpackMantissa)

/-! ## Signs -/

/-- Not NaN, and of this sign. -/
inductive Signed (sign : Sign) : UnpackedFloat → Prop where
  | infinity : Signed sign (.infinity sign)
  | zero : Signed sign (.zero sign)
  | finite (m : Nat) (e : Int) (h : 0 < m) : Signed sign (.finite sign m e h)

theorem Signed.ne {sign : Sign} {u : UnpackedFloat} (h : Signed sign u) : u ≠ .notANumber := by
  cases h <;> nofun

/-- Sixty-four bits are NaN or have the sign of their first bit. -/
theorem signed_unpack (bits : BitVec 64) : unpack .binary64 bits = .notANumber ∨
    Signed (.ofBitVec (@unpackSign .binary64 bits)) (unpack .binary64 bits) := by
  unfold unpack
  dsimp only
  split
  · split
    · exact .inr .infinity
    · exact .inl rfl
  · split
    · split
      · exact .inr .zero
      · exact .inr (.finite ..)
    · exact .inr (.finite ..)

/-- Parts that are not those of NaN are the parts of a number with their sign. -/
theorem signed_packComponents (sign : Sign) {e : BitVec 11} {m : BitVec 52} (h : e = -1#11 → m = 0#52) :
    Signed sign (unpack .binary64 (packComponents .binary64 sign e m)) := by
  have hsigned := signed_unpack (packComponents .binary64 sign e m)
  rw [UnpackedFloat.unpackSign_packComponents, Sign.ofBitVec_toBitVec] at hsigned
  refine hsigned.resolve_left fun hnan => ?_
  simp only [unpack, UnpackedFloat.unpackExponent_packComponents, UnpackedFloat.unpackMantissa_packComponents] at hnan
  split at hnan
  · rename_i he
    rw [if_pos (h he)] at hnan
    cases hnan
  · split at hnan
    · split at hnan <;> cases hnan
    · cases hnan

/-- A number keeps its sign when it is packed. -/
theorem Signed.unpack_pack {sign : Sign} {u : UnpackedFloat} (h : Signed sign u) :
    Signed sign (unpack .binary64 (pack .binary64 u)) := by
  cases h with
  | infinity => exact signed_packComponents sign fun _ => rfl
  | zero => exact signed_packComponents sign fun _ => rfl
  | finite m e h =>
    unfold pack
    dsimp only
    split
    · exact signed_packComponents sign fun _ => rfl
    split
    · rename_i hrange _
      refine signed_packComponents sign fun he => absurd (congrArg BitVec.toNat he) ?_
      have hones : (-1#11 : BitVec 11).toNat = 2047 := rfl
      rw [BitVec.toNat_ofNat, hones]
      omega
    · exact signed_packComponents sign fun he => absurd he (by decide)

/-! ## Normal numbers -/

/-- The leading digit is put in front of the others again. -/
theorem toNat_leading {m : Nat} (hm : m.log2 = 52) : (1#1 ++ BitVec.ofNat 52 m).toNat = m := by
  obtain ⟨hlow, hhigh⟩ := (Nat.log2_eq_iff (by rintro rfl; cases hm)).1 hm
  have hrest : (BitVec.ofNat 52 m).toNat = m - 2 ^ 52 := by
    rw [BitVec.toNat_ofNat]
    omega
  rw [BitVec.toNat_append, ← Nat.shiftLeft_add_eq_or_of_lt (BitVec.isLt _), hrest]
  show 1 <<< 52 + (m - 2 ^ 52) = m
  omega

/-- A number of fifty-three digits within the range of exponents is packed without loss. -/
theorem unpack_pack {sign : Sign} {m : Nat} {e : Int} {h : 0 < m} (hm : m.log2 = 52) (hlow : -1074 ≤ e)
    (hhigh : e ≤ 971) :
    unpack .binary64 (pack .binary64 (.finite sign m e h)) = .finite sign m e h := by
  have hbias : (e + (Float.Model.Format.exponentBias .binary64 : Int) + (52 : Nat)).toNat = (e + 1075).toNat := by
    show (e + (1023 : Int) + 52).toNat = _
    omega
  have hpack : pack .binary64 (.finite sign m e h) =
      packComponents .binary64 sign (BitVec.ofNat 11 (e + 1075).toNat) (BitVec.ofNat 52 m) := by
    unfold pack
    dsimp only
    rw [hbias, if_neg (by omega), if_pos (by rw [hm]; rfl)]
  have hexponent : (BitVec.ofNat 11 (e + 1075).toNat).toNat = (e + 1075).toNat := by
    rw [BitVec.toNat_ofNat]
    omega
  -- the exponent is neither that of infinities nor that of subnormal numbers
  have hones : BitVec.ofNat 11 (e + 1075).toNat ≠ -1#11 := fun heq => by
    have hnat := hexponent.symm.trans (congrArg BitVec.toNat heq)
    have hones : (-1#11 : BitVec 11).toNat = 2047 := rfl
    omega
  have hzero : BitVec.ofNat 11 (e + 1075).toNat ≠ 0#11 := fun heq => by
    have hnat := hexponent.symm.trans (congrArg BitVec.toNat heq)
    have hzero : (0#11 : BitVec 11).toNat = 0 := rfl
    omega
  rw [hpack]
  simp only [unpack, UnpackedFloat.unpackExponent_packComponents, UnpackedFloat.unpackMantissa_packComponents,
    UnpackedFloat.unpackSign_packComponents, Sign.ofBitVec_toBitVec]
  rw [if_neg hones, if_neg hzero]
  simp only [hexponent, toNat_leading hm]
  congr 1
  show ((e + 1075).toNat : Int) - (1023 + 52) = e
  omega

/-! ## Numbers -/

theorem unpacked_eq (x : Double) :
    x.unpacked = unpack .binary64 (pack .binary64 (unpack .binary64 x.bits.toBitVec)) := rfl

theorem unpacked_packed (u : UnpackedFloat) : (packed u).unpacked = unpack .binary64 (pack .binary64 u) :=
  congrArg (·.toModel.unpack) (Float.ofBits_toBits (.ofModel (.pack u)))

theorem Signed.unpacked {sign : Sign} {u : UnpackedFloat} (h : Signed sign u) : Signed sign (packed u).unpacked :=
  unpacked_packed u ▸ h.unpack_pack

theorem toNat_unpackMantissa (x : Double) : (@unpackMantissa .binary64 x.bits.toBitVec).toNat = x.fraction := by
  rw [fraction_eq]
  simp only [unpackMantissa, BitVec.toNat_cast, BitVec.extractLsb_toNat, Nat.shiftRight_eq_div_pow]
  simp

theorem unpack_eq_notANumber (x : Double) : unpack .binary64 x.bits.toBitVec = .notANumber ↔ x.isNaN = true := by
  have hmantissa : @unpackMantissa .binary64 x.bits.toBitVec = 0#52 ↔ x.fraction = 0 := by
    rw [← toNat_unpackMantissa, ← BitVec.toNat_inj]
    rfl
  unfold unpack isNaN
  dsimp only
  -- all ones in the exponent: infinite without a fraction, not a number with one
  cases hfinite : x.isFinite with
  | false =>
    rw [if_pos (unpackExponent_eq_ones.2 hfinite)]
    by_cases hfraction : x.fraction = 0
    · simp [hmantissa.2 hfraction, hfraction]
    · simp [mt hmantissa.1 hfraction, hfraction]
  | true =>
    rw [if_neg fun h => Bool.false_ne_true ((unpackExponent_eq_ones.1 h).symm.trans hfinite)]
    split
    · split <;> simp
    · simp

theorem isNaN_iff (x : Double) : x.isNaN = true ↔ x.unpacked = .notANumber := by
  rw [unpacked_eq, ← unpack_eq_notANumber]
  constructor
  · intro h
    rw [h]
    rfl
  · intro h
    refine (signed_unpack x.bits.toBitVec).resolve_right fun hsigned => ?_
    exact hsigned.unpack_pack.ne h

/-! ## Magnitudes -/

theorem toNat_bits_abs (x : Double) : x.abs.bits.toNat = x.bits.toNat % 2 ^ 63 := by
  have hmask : (0x7fffffffffffffff : UInt64).toNat = 2 ^ 63 - 1 := rfl
  rw [abs, UInt64.toNat_and, hmask, Nat.and_two_pow_sub_one_eq_mod]

theorem isNaN_abs (x : Double) : x.abs.isNaN = x.isNaN := by
  have hexponent : x.abs.biasedExponent = x.biasedExponent := by
    rw [biasedExponent_eq, biasedExponent_eq, toNat_bits_abs]
    omega
  have hfraction : x.abs.fraction = x.fraction := by
    rw [fraction_eq, fraction_eq, toNat_bits_abs]
    omega
  rw [isNaN, isNaN, isFinite, isFinite, hexponent, hfraction]

/-- A magnitude is positive unless it is NaN. -/
theorem signed_abs {x : Double} (h : x.isNaN = false) : Signed .positive x.abs.unpacked := by
  have hsign : @unpackSign .binary64 x.abs.bits.toBitVec = 0#1 := by
    apply BitVec.eq_of_toNat_eq
    have hlt := Nat.mod_lt x.bits.toNat (Nat.two_pow_pos 63)
    simp only [unpackSign, BitVec.toNat_cast, BitVec.extractLsb_toNat, Nat.shiftRight_eq_div_pow]
    show x.abs.bits.toNat / 2 ^ 63 % 2 ^ 1 = 0
    rw [toNat_bits_abs]
    omega
  have hsigned := signed_unpack x.abs.bits.toBitVec
  rw [unpack_eq_notANumber, isNaN_abs, h, hsign] at hsigned
  exact (hsigned.resolve_left Bool.false_ne_true).unpack_pack

end ShotTally.Double
