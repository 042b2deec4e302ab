/-
Missing readings. The mean magnitude of a phase is NaN exactly when one of its readings is, and NaN is neither below
nor above any number. So a phase without missing readings is detected, and the lowest such phase, exactly if the least
phase that some shot has is without them; if one of its readings is missing, it is detected all the same.
-/
import ShotTally.Proofs.Condition.Lowest
import ShotTally.Proofs.Number.Counting
import ShotTally.Proofs.Number.Order

namespace ShotTally.Modulator

open Double (Signed isNaN_add isNaN_div isNaN_abs signed_abs)

/-! ## Means of magnitudes -/

/-- Adds up magnitudes, behind those already added. -/
theorem isNaN_foldl : ∀ (values : List Double) {total : Double}, total.isNaN = true →
    (values.foldl (fun total v => total + Scalar.abs v) total).isNaN = true
  | [], _, h => h
  | _ :: values, _, h => isNaN_foldl values (isNaN_add (.inl h))

theorem isNaN_foldl_of_mem : ∀ {values : List Double} {v : Double}, v ∈ values → v.isNaN = true → ∀ total : Double,
    (values.foldl (fun total v => total + Scalar.abs v) total).isNaN = true
  | w :: values, v, hv, h, total => by
    rcases List.mem_cons.1 hv with rfl | hv
    · exact isNaN_foldl values (isNaN_add (.inr ((isNaN_abs v).trans h)))
    · exact isNaN_foldl_of_mem hv h _

theorem signed_foldl : ∀ {values : List Double} {total : Double}, (∀ v ∈ values, v.isNaN = false) →
    Signed .positive total.unpacked →
      Signed .positive (values.foldl (fun total v => total + Scalar.abs v) total).unpacked
  | [], _, _, h => h
  | v :: values, total, hall, h => by
    obtain ⟨hv, hvalues⟩ := List.forall_mem_cons.1 hall
    have hrest := signed_foldl hvalues (h.add (signed_abs hv)).unpacked
    exact hrest

/-- The mean magnitude of some readings is NaN exactly when one of them is. -/
theorem isNaN_meanMagnitude {values : List Double} (hne : values ≠ []) (hlen : values.length < 2 ^ 64) :
    (meanMagnitude values).isNaN = true ↔ ∃ v ∈ values, v.isNaN = true := by
  constructor
  · intro hnan
    by_contra hnone
    simp only [not_exists, not_and, Bool.not_eq_true] at hnone
    have hzero : Signed .positive Double.zero.unpacked := .zero
    obtain ⟨m, e, h, hcount⟩ := Double.exists_unpacked_ofNat (List.length_pos_iff.2 hne) hlen
    have hsum := signed_foldl hnone hzero
    have hquotient := (hsum.div (m := m) (e := e) (h := h)).unpacked
    rw [← hcount] at hquotient
    exact hquotient.ne ((Double.isNaN_iff _).1 hnan)
  · rintro ⟨v, hv, h⟩
    exact isNaN_div (isNaN_foldl_of_mem hv h _)

/-! ## Detection -/

/-- Numbers are ranked as doubles are ordered. -/
theorem rankedBy_rank : RankedBy Double.rank := fun _ _ => Double.lt_iff_rank

/-- No reading at the phase is missing. -/
def Whole (period : Int) (readings : List (Int × Double)) (p : Int) : Prop :=
  ∀ v ∈ readingsAt period p readings, v.isNaN = false

instance (period : Int) (readings : List (Int × Double)) (p : Int) : Decidable (Whole period readings p) :=
  inferInstanceAs (Decidable (∀ v ∈ _, _))

variable {period p : Int} {shots : List Int} {values : List Double}

theorem length_readingsAt_le (period p : Int) (shots : List Int) (values : List Double) :
    (readingsAt period p (shots.zip values)).length ≤ shots.length :=
  calc (readingsAt period p (shots.zip values)).length
      = ((shots.zip values).filter fun r => r.1.emod period == p).length := by rw [readingsAt, List.length_map]
    _ ≤ (shots.zip values).length := List.length_filter_le _ _
    _ ≤ shots.length := by
      rw [List.length_zip]
      exact Nat.min_le_left _ _

/-- The mean magnitude at a phase that some shot has is a number if no reading is missing there. -/
theorem rank_candidate (hlen : shots.length = values.length) (hshots : shots.length < 2 ^ 64)
    (h : HasPhase period shots p) :
    (candidate period (shots.zip values) p).2.rank = none ↔ ¬ Whole period (shots.zip values) p := by
  have hsmall := (length_readingsAt_le period p shots values).trans_lt hshots
  rw [Double.rank_eq_none, candidate, isNaN_meanMagnitude ((readingsAt_ne_nil_iff hlen).2 h) hsmall, Whole]
  simp

/-- A phase without missing readings is detected, and the lowest of these, exactly if the least phase that some shot
has is one of them. Otherwise the least phase is detected, in spite of the missing reading. There are no more shots
than 64 bits can count. -/
theorem detectOffset_whole_iff {p₀ : Int} (hperiod : 0 < period) (hlen : shots.length = values.length)
    (hshots : shots.length < 2 ^ 64) (h₀ : LeastPhase period shots p₀) :
    ((∃ p, detectOffset shots values period = .ok p ∧ HasPhase period shots p ∧ Whole period (shots.zip values) p ∧
        ∀ q, HasPhase period shots q → Whole period (shots.zip values) q →
          Double.lt (meanMagnitude (readingsAt period q (shots.zip values)))
            (meanMagnitude (readingsAt period p (shots.zip values))) = false) ↔
      Whole period (shots.zip values) p₀) ∧
    (¬ Whole period (shots.zip values) p₀ → detectOffset shots values period = .ok p₀) := by
  -- without a number the least phase is never displaced
  have hleft : ¬ Whole period (shots.zip values) p₀ → detectOffset shots values period = .ok p₀ := fun hnot =>
    h₀.detectOffset_of_unranked rankedBy_rank hperiod hlen ((rank_candidate hlen hshots h₀.has).2 hnot)
  refine ⟨⟨?_, fun hwhole => ?_⟩, hleft⟩
  · rintro ⟨p, hp, -, hwhole, -⟩
    by_contra hnot
    obtain rfl : p₀ = p := Except.ok.inj ((hleft hnot).symm.trans hp)
    exact hnot hwhole
  · have hsome : ((candidate period (shots.zip values) p₀).2.rank).isSome = true :=
      Option.isSome_iff_ne_none.2 fun hnone => (rank_candidate hlen hshots h₀.has).1 hnone hwhole
    -- with a number it starts the search for the lowest, which passes over missing means
    obtain ⟨p, y, hp, hlowest⟩ := h₀.exists_lowest rankedBy_rank hperiod hlen hsome
    have hhas : HasPhase period shots p := ((mem_candidates hperiod).1 hlowest.mem).1
    refine ⟨p, hp, hhas, ?_, fun q hq _ => ?_⟩
    · by_contra hnot
      have hnone := (rank_candidate hlen hshots hhas).2 hnot
      rw [hlowest.ranked] at hnone
      cases hnone
    · by_contra hnot
      have hlt := Bool.eq_true_of_not_eq_false hnot
      obtain ⟨r, hr, y', hy', hry⟩ := Double.lt_iff_rank.1 hlt
      obtain rfl : y = y' := Option.some.inj (hlowest.ranked.symm.trans hy')
      have hmem : candidate period (shots.zip values) q ∈ candidates period shots (shots.zip values) :=
        (mem_candidates hperiod).2 ⟨hq, rfl⟩
      exact (hlowest.le _ hmem r hr).not_gt hry

/-- A missing reading behind the least phase is passed over. -/
theorem detectOffset_later_missing : detectOffset [2, 3, 4] [Double.zero, Double.one, Double.nan] 3 = .ok 2 ∧
    HasPhase 3 [2, 3, 4] 2 ∧ Whole 3 ([2, 3, 4].zip [Double.zero, Double.one, Double.nan]) 2 ∧
    ¬ Whole 3 ([2, 3, 4].zip [Double.zero, Double.one, Double.nan]) 1 := by
  have hleast : LeastPhase 3 [2, 3, 4] 0 := ⟨⟨3, by decide, rfl⟩, fun _ h => (h.nonneg (by decide)).1⟩
  have hlen : [2, 3, (4 : Int)].length = [Double.zero, Double.one, Double.nan].length := rfl
  obtain ⟨p, hp, hhas, hwhole, -⟩ :=
    (detectOffset_whole_iff (by decide) hlen (by decide) hleast).1.2 (by decide +kernel)
  have htwo : detectOffset [2, 3, 4] [Double.zero, Double.one, Double.nan] 3 = .ok 2 := by decide +kernel
  obtain rfl : p = 2 := Except.ok.inj (hp.symm.trans htwo)
  exact ⟨htwo, hhas, hwhole, by decide +kernel⟩

/-- A missing reading at the least phase is not: no reading is missing at the other phase, and yet it is not found. -/
theorem detectOffset_first_missing :
    (∃ q, HasPhase 2 [0, 1] q ∧ Whole 2 ([0, 1].zip [Double.nan, Double.one]) q) ∧
    ¬ ∃ p, detectOffset [0, 1] [Double.nan, Double.one] 2 = .ok p ∧
      Whole 2 ([0, 1].zip [Double.nan, Double.one]) p := by
  constructor
  · exact ⟨1, ⟨1, by decide, rfl⟩, by decide +kernel⟩
  · rintro ⟨p, hp, hwhole⟩
    have hzero : detectOffset [0, 1] [Double.nan, Double.one] 2 = .ok 0 := by decide +kernel
    obtain rfl : p = 0 := Except.ok.inj (hp.symm.trans hzero)
    exact absurd hwhole (by decide +kernel)

end ShotTally.Modulator
