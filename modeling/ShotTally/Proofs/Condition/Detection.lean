/-
The offset that is detected from exact readings. It is the least of the phases at which the mean magnitude is
lowest, so it does not depend on the order in which the readings came; and a modulator with this offset is off at
exactly the shots of this phase, before the offset as well as after it, unless a shot is farther from the offset
than words hold.
-/
import Mathlib.Data.List.Zip
import ShotTally.Condition.Basic
import ShotTally.Proofs.Condition.Lowest
import ShotTally.Proofs.Number.Exact
import ShotTally.Proofs.Number.Word

namespace ShotTally.Modulator

/-! ## Exact means -/

/-- The mean magnitude of the readings at one phase. -/
def meanAt (period : Int) (readings : List (Int × ℚ)) (p : Int) : ℚ :=
  Exact.mean ((readings.filter fun r => r.1 % period = p).map fun r => |r.2|)

theorem meanMagnitude_eq (values : List ℚ) : meanMagnitude values = Exact.mean (values.map (|·|)) := by
  have hfold : values.foldl (fun total v => total + Scalar.abs v) Scalar.zero = (values.map (|·|)).sum := by
    rw [List.sum_eq_foldl, List.foldl_map]
    rfl
  have hcount : (Scalar.ofNat values.length : ℚ) = values.length := rfl
  rw [meanMagnitude, magnitude, hfold, hcount, Exact.mean_eq, List.length_map]

theorem candidate_eq (period : Int) (readings : List (Int × ℚ)) (p : Int) :
    candidate period readings p = (p, meanAt period readings p) := by
  have hfilter : (readings.filter fun r => r.1.emod period == p) = readings.filter fun r => r.1 % period = p :=
    List.filter_congr fun _ _ => beq_eq_decide _ _
  rw [candidate, meanMagnitude_eq, readingsAt, hfilter, List.map_map]
  rfl

theorem meanAt_perm {period : Int} {readings readings' : List (Int × ℚ)} (h : readings.Perm readings') (p : Int) :
    meanAt period readings p = meanAt period readings' p :=
  Exact.mean_perm ((h.filter _).map _)

/-- Exact numbers are ranked by themselves. -/
theorem rankedBy_some : RankedBy (some : ℚ → Option ℚ) := by
  intro a b
  have hlt : Scalar.lt a b = decide (a < b) := rfl
  simp [hlt]

/-! ## The least minimiser -/

/-- A phase that some shot has, at which the mean magnitude is lowest, and lower than at any lesser phase. -/
structure LeastMinimiser (period : Int) (shots : List Int) (values : List ℚ) (p : Int) : Prop where
  bounds : 0 ≤ p ∧ p < period
  has : HasPhase period shots p
  le : ∀ q, HasPhase period shots q → meanAt period (shots.zip values) p ≤ meanAt period (shots.zip values) q
  lt : ∀ q, HasPhase period shots q → q < p → meanAt period (shots.zip values) p < meanAt period (shots.zip values) q

variable {period p q : Int} {shots shots' : List Int} {values values' : List ℚ}

theorem LeastMinimiser.unique (hp : LeastMinimiser period shots values p) (hq : LeastMinimiser period shots values q) :
    p = q := by
  rcases lt_trichotomy p q with hlt | heq | hlt
  · exact absurd (hp.le q hq.has) (hq.lt p hp.has hlt).not_ge
  · exact heq
  · exact absurd (hq.le p hp.has) (hp.lt q hq.has hlt).not_ge

theorem shots_perm (hlen : shots.length = values.length) (hlen' : shots'.length = values'.length)
    (hperm : (shots'.zip values').Perm (shots.zip values)) : shots'.Perm shots := by
  have hfst := hperm.map Prod.fst
  rwa [List.map_fst_zip hlen'.le, List.map_fst_zip hlen.le] at hfst

/-- It stays when the shots come in another order, each with its reading. -/
theorem LeastMinimiser.of_perm (h : LeastMinimiser period shots' values' p) (hshots : shots'.Perm shots)
    (hperm : (shots'.zip values').Perm (shots.zip values)) : LeastMinimiser period shots values p := by
  have hhas : ∀ q, HasPhase period shots q ↔ HasPhase period shots' q := fun q =>
    exists_congr fun _ => and_congr_left fun _ => hshots.mem_iff.symm
  refine ⟨h.bounds, (hhas p).2 h.has, fun q hq => ?_, fun q hq hqp => ?_⟩ <;>
    rw [← meanAt_perm hperm, ← meanAt_perm hperm]
  · exact h.le q ((hhas q).1 hq)
  · exact h.lt q ((hhas q).1 hq) hqp

theorem exists_leastMinimiser (hperiod : 0 < period) (hlen : shots.length = values.length) (hne : shots ≠ []) :
    ∃ p, detectOffset shots values period = .ok p ∧ LeastMinimiser period shots values p := by
  obtain ⟨p₀, h₀⟩ := exists_leastPhase hperiod hne
  obtain ⟨p, y, hp, hlowest⟩ := h₀.exists_lowest rankedBy_some hperiod hlen rfl
  have hhas : HasPhase period shots p := ((mem_candidates hperiod).1 hlowest.mem).1
  have hmem : ∀ q, HasPhase period shots q →
    candidate period (shots.zip values) q ∈ candidates period shots (shots.zip values) :=
    fun q hq => (mem_candidates hperiod).2 ⟨hq, rfl⟩
  have hle := fun q hq => hlowest.le _ (hmem q hq) _ rfl
  have hlt := fun q hq hqp => hlowest.lt _ (hmem q hq) hqp _ rfl
  obtain rfl := Option.some.inj hlowest.ranked
  simp only [candidate_eq] at hle hlt
  exact ⟨p, hp, hhas.nonneg hperiod, hhas, hle, hlt⟩

/-! ## The classifier -/

/-- A modulator is off at the shots that are whole periods away from its offset, as far as words tell. -/
theorem modulatorOff_classify (source : Signal) (hperiod : 0 < period) (p : Int) :
    (ShotFlags.classify source ⟨period, p⟩ shots).modulatorOff =
      shots.map fun shot => decide (period ∣ Arithmetic.words.signed (shot - p)) := by
  refine List.map_congr_left fun shot _ => ?_
  simp only [Signal.isOff, hperiod, decide_true, Bool.true_and]
  exact decide_eq_decide.2 Int.dvd_iff_emod_eq_zero.symm

/-- Those are the shots of the phase of the offset, if words hold how far away they are. -/
theorem dvd_signed_sub_iff (h : 0 ≤ p ∧ p < period) {shot : Int} (hheld : Text.isInt64 (shot - p) = true) :
    period ∣ Arithmetic.words.signed (shot - p) ↔ shot % period = p := by
  rw [Arithmetic.signed_of_isInt64 hheld, Int.dvd_iff_emod_eq_zero, ← Int.emod_eq_emod_iff_emod_sub_eq_zero,
    Int.emod_eq_of_lt h.1 h.2]

/-! ## Detection -/

end ShotTally.Modulator
