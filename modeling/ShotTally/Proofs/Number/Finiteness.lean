/-
Numbers that are not finite. A product and a sum are finite only when both sides are, and a quotient only
when the dividend is; so the means of numbers that agree, but for those that are not finite, agree again.
-/
import Mathlib.Data.List.Forall2
import ShotTally.Proofs.Number.Bits
import ShotTally.Proofs.Outcome
import ShotTally.Statistics.Average

namespace ShotTally

namespace Double

open Float.Model (UnpackedFloat)

/-! ## Unpacked numbers -/

/-- The parts of a number. -/
def unpacked (x : Double) : UnpackedFloat := x.toFloat.toModel.unpack

/-- The number with these parts. -/
def packed (u : UnpackedFloat) : Double := ofFloat (.ofModel (.pack u))

theorem isFinite_packed {u : UnpackedFloat} (h : u.isFinite = false) : (packed u).isFinite = false := by
  cases u with
  | infinity sign => cases sign <;> decide
  | notANumber => decide
  | zero _ => cases h
  | finite _ _ _ _ => cases h

theorem toNat_unpackExponent (x : Double) :
    (@UnpackedFloat.unpackExponent .binary64 x.bits.toBitVec).toNat = x.biasedExponent := by
  rw [biasedExponent_eq]
  simp only [UnpackedFloat.unpackExponent, BitVec.toNat_cast, BitVec.extractLsb_toNat, Nat.shiftRight_eq_div_pow]
  rfl

/-- All bits of the exponent are set in what is not finite. -/
theorem unpackExponent_eq_ones {x : Double} :
    @UnpackedFloat.unpackExponent .binary64 x.bits.toBitVec = -1#11 ↔ x.isFinite = false := by
  rw [isFinite_eq_false, ← toNat_unpackExponent, ← BitVec.toNat_inj]
  rfl

theorem isFinite_unpack {x : Double} (h : x.isFinite = false) :
    (UnpackedFloat.unpack .binary64 x.bits.toBitVec).isFinite = false := by
  unfold UnpackedFloat.unpack
  rw [if_pos (unpackExponent_eq_ones.2 h)]
  split <;> rfl

theorem isFinite_unpacked {x : Double} (h : x.isFinite = false) : x.unpacked.isFinite = false := by
  -- the bits of the number are packed again before they are read
  exact isFinite_unpack (isFinite_packed (isFinite_unpack h))

/-! ## Arithmetic -/

theorem infinity_or_nan {u : UnpackedFloat} (h : u.isFinite = false) :
    u = .notANumber ∨ ∃ sign, u = .infinity sign := by
  cases u with
  | infinity sign => exact .inr ⟨sign, rfl⟩
  | notANumber => exact .inl rfl
  | zero _ => cases h
  | finite _ _ _ _ => cases h

variable {x y : Double}

theorem isFinite_mul (h : x.isFinite = false ∨ y.isFinite = false) : (x * y).isFinite = false := by
  refine isFinite_packed (u := x.unpacked.mul .binary64 y.unpacked) ?_
  rcases h with h | h
  · rcases infinity_or_nan (isFinite_unpacked h) with hx | ⟨sign, hx⟩ <;> rw [hx] <;> cases y.unpacked <;> rfl
  · rcases infinity_or_nan (isFinite_unpacked h) with hy | ⟨sign, hy⟩ <;> rw [hy] <;> cases x.unpacked <;> rfl

/-- Infinities of different signs have no sum. -/
theorem isFinite_add_infinity (sign sign' : UnpackedFloat.Sign) :
    (UnpackedFloat.add .binary64 (.infinity sign) (.infinity sign')).isFinite = false := by
  cases sign <;> cases sign' <;> rfl

theorem isFinite_add (h : x.isFinite = false ∨ y.isFinite = false) : (x + y).isFinite = false := by
  refine isFinite_packed (u := x.unpacked.add .binary64 y.unpacked) ?_
  rcases h with h | h
  · rcases infinity_or_nan (isFinite_unpacked h) with hx | ⟨sign, hx⟩ <;> rw [hx] <;> cases y.unpacked <;>
      first | rfl | exact isFinite_add_infinity ..
  · rcases infinity_or_nan (isFinite_unpacked h) with hy | ⟨sign, hy⟩ <;> rw [hy] <;> cases x.unpacked <;>
      first | rfl | exact isFinite_add_infinity ..

theorem isFinite_div (h : x.isFinite = false) : (x / y).isFinite = false := by
  refine isFinite_packed (u := x.unpacked.div .binary64 y.unpacked) ?_
  rcases infinity_or_nan (isFinite_unpacked h) with hx | ⟨sign, hx⟩ <;> rw [hx] <;> cases y.unpacked <;> rfl

/-- The sum over a weight that is not finite is not finite, so the mean is not either. -/
theorem isFinite_meanOf {w v : Double}
    (h : (x.isFinite = false ∨ w.isFinite = false) ∨ y.isFinite = false ∨ v.isFinite = false) :
    (WeightedAverage.meanOf w v x y).isFinite = false :=
  isFinite_div (isFinite_add (h.imp isFinite_mul isFinite_mul))

/-! ## Numbers that are alike -/

/-- Numbers that are equal, or neither of which is finite. -/
def Alike (x y : Double) : Prop := x = y ∨ x.isFinite = false ∧ y.isFinite = false

instance : Decidable (Alike x y) := inferInstanceAs (Decidable (_ ∨ _))

theorem Alike.refl (x : Double) : Alike x x := .inl rfl

theorem Alike.isFinite_eq (h : x.Alike y) : x.isFinite = y.isFinite := by
  rcases h with rfl | ⟨hx, hy⟩
  · rfl
  · rw [hx, hy]

theorem Alike.eq (h : x.Alike y) (hx : ¬ x.isFinite = false) : x = y := h.resolve_right fun hnot => hx hnot.1

section

variable {x' y' w v w' v' : Double}

theorem Alike.add (hx : x.Alike x') (hy : y.Alike y') : (x + y).Alike (x' + y') := by
  by_cases h : x.isFinite = false ∨ y.isFinite = false
  · exact .inr ⟨isFinite_add h, isFinite_add (by rwa [← hx.isFinite_eq, ← hy.isFinite_eq])⟩
  · rw [not_or] at h
    rw [hx.eq h.1, hy.eq h.2]
    exact .refl _

theorem Alike.meanOf (hw : w.Alike w') (hv : v.Alike v') (hx : x.Alike x') (hy : y.Alike y') :
    (WeightedAverage.meanOf w v x y).Alike (WeightedAverage.meanOf w' v' x' y') := by
  by_cases h : (x.isFinite = false ∨ w.isFinite = false) ∨ y.isFinite = false ∨ v.isFinite = false
  · refine .inr ⟨isFinite_meanOf h, isFinite_meanOf ?_⟩
    rwa [← hw.isFinite_eq, ← hv.isFinite_eq, ← hx.isFinite_eq, ← hy.isFinite_eq]
  · rw [not_or, not_or, not_or] at h
    rw [hx.eq h.1.1, hw.eq h.1.2, hy.eq h.2.1, hv.eq h.2.2]
    exact .refl _

end

end Double

/-! ## Averages that are written alike -/

namespace WeightedAverage

/-- Averages of data of one shape whose numbers are alike. -/
structure WrittenLike (a b : WeightedAverage Double) : Prop where
  dataShape : a.dataShape = b.dataShape
  weights : List.Forall₂ Double.Alike a.weights.data b.weights.data
  average : List.Forall₂ Double.Alike a.average.data b.average.data

theorem forall₂_zipWith {α β γ : Type} {R : α → α → Prop} {S : β → β → Prop} {T : γ → γ → Prop} {f g : α → β → γ}
    (hfg : ∀ a a' b b', R a a' → S b b' → T (f a b) (g a' b')) : ∀ {as as' : List α} {bs bs' : List β},
      List.Forall₂ R as as' → List.Forall₂ S bs bs' → List.Forall₂ T (as.zipWith f bs) (as'.zipWith g bs')
  | _, _, _, _, .nil, _ => .nil
  | _, _, _, _, .cons _ _, .nil => .nil
  | _, _, _, _, .cons ha has, .cons hb hbs => .cons (hfg _ _ _ _ ha hb) (forall₂_zipWith hfg has hbs)

theorem combineBuckets_alike (width : Nat) {weights weights' : List (Double × Double)}
    (hweights : List.Forall₂ (fun x y => x.1.Alike y.1 ∧ x.2.Alike y.2) weights weights') : ∀ {a a' b b' : List Double},
      List.Forall₂ Double.Alike a a' → List.Forall₂ Double.Alike b b' →
        List.Forall₂ Double.Alike (combineBuckets width weights a b) (combineBuckets width weights' a' b') := by
  induction hweights with
  | nil => exact fun ha _ => ha
  | cons h _ ih =>
    intro a a' b b' ha hb
    have hmean : ∀ x x' y y' : Double, x.Alike x' → y.Alike y' → Double.Alike _ _ := fun _ _ _ _ => h.1.meanOf h.2
    have hbucket := forall₂_zipWith hmean (List.forall₂_take width ha) (List.forall₂_take width hb)
    have hothers := ih (List.forall₂_drop width ha) (List.forall₂_drop width hb)
    exact List.rel_append hbucket hothers

variable {a a' b b' v v' : WeightedAverage Double}

theorem WrittenLike.combine (ha : a.WrittenLike a') (hb : b.WrittenLike b') (h : a.combine b = .ok v)
    (h' : a'.combine b' = .ok v') : v.WrittenLike v' := by
  unfold WeightedAverage.combine at h h'
  split at h
  · cases h
  split at h'
  · cases h'
  cases h
  cases h'
  have hweights : List.Forall₂ (fun x y => x.1.Alike y.1 ∧ x.2.Alike y.2) (a.weights.data.zip b.weights.data)
      (a'.weights.data.zip b'.weights.data) := forall₂_zipWith (fun _ _ _ _ => .intro) ha.weights hb.weights
  refine ⟨ha.dataShape, ?_, ?_⟩
  · exact List.forall₂_map_left_iff.2 (List.forall₂_map_right_iff.2 (hweights.imp fun _ _ hxy => hxy.1.add hxy.2))
  · show List.Forall₂ _ (combineBuckets (volume a.dataShape) _ _ _) (combineBuckets (volume a'.dataShape) _ _ _)
    rw [ha.dataShape]
    exact combineBuckets_alike _ hweights ha.average hb.average

theorem writtenLike_of_foldlM {others others' : List (WeightedAverage Double)}
    (hothers : List.Forall₂ WrittenLike others others') :
    ∀ {a a' : WeightedAverage Double}, a.WrittenLike a' → others.foldlM WeightedAverage.combine a = .ok v →
      others'.foldlM WeightedAverage.combine a' = .ok v' → v.WrittenLike v' := by
  induction hothers with
  | nil =>
    intro a a' ha h h'
    cases h
    cases h'
    exact ha
  | cons hb _ ih =>
    intro a a' ha h h'
    obtain ⟨m, hm, h⟩ := bind_eq_ok.1 (List.foldlM_cons.symm.trans h)
    obtain ⟨m', hm', h'⟩ := bind_eq_ok.1 (List.foldlM_cons.symm.trans h')
    exact ih (ha.combine hb hm hm') h h'

/-- Averages that are written alike one by one are folded to averages that are. -/
theorem writtenLike_of_fold {as as' : List (WeightedAverage Double)} (has : List.Forall₂ WrittenLike as as')
    {o o' : Option (WeightedAverage Double)} (h : fold as = .ok o) (h' : fold as' = .ok o') :
    Option.Rel WrittenLike o o' := by
  cases has with
  | nil =>
    cases h
    cases h'
    exact .none
  | cons hfirst hothers =>
    obtain ⟨v, hv, rfl⟩ := map_eq_ok.1 h
    obtain ⟨v', hv', rfl⟩ := map_eq_ok.1 h'
    exact .some (writtenLike_of_foldlM hothers hfirst hv hv')

end WeightedAverage

end ShotTally
