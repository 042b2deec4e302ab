/-
Adding up reference readings phase by phase. After any readings each phase has the sum of the magnitudes of its own
readings, in the order in which they came, and their number. Going through all phases and leaving out those without a
reading is the same as going through the phases that some shot has.
-/
import Mathlib.Data.List.Sort
import ShotTally.Condition.Offset

namespace ShotTally.Modulator

variable {α : Type} [Scalar α]

/-! ## Readings at a phase -/

omit [Scalar α] in
/-- The readings at one phase. -/
def readingsAt (period phase : Int) (readings : List (Int × α)) : List α :=
  (readings.filter fun r => r.1.emod period == phase).map (·.2)

/-- The sum of the magnitudes of some readings. -/
def magnitude (values : List α) : α := values.foldl (fun total v => total + Scalar.abs v) Scalar.zero

/-- Mean magnitude of some readings. -/
def meanMagnitude (values : List α) : α := magnitude values / Scalar.ofNat values.length

/-- Some shot has the phase. -/
def HasPhase (period : Int) (shots : List Int) (p : Int) : Prop := ∃ shot ∈ shots, shot % period = p

instance (period : Int) (shots : List Int) (p : Int) : Decidable (HasPhase period shots p) :=
  inferInstanceAs (Decidable (∃ shot ∈ shots, _))

/-- The phases that some shot has, in increasing order. -/
def phases (period : Int) (shots : List Int) : List Int :=
  ((List.range period.toNat).map Int.ofNat).filter fun p => HasPhase period shots p

/-- A phase with the mean magnitude of its readings. -/
def candidate (period : Int) (readings : List (Int × α)) (p : Int) : Int × α :=
  (p, meanMagnitude (readingsAt period p readings))

/-- The phases that some shot has, as candidates. -/
def candidates (period : Int) (shots : List Int) (readings : List (Int × α)) : List (Int × α) :=
  (phases period shots).map (candidate period readings)

variable {period p : Int} {shots : List Int} {values : List α} {readings : List (Int × α)}

omit [Scalar α] in
theorem readingsAt_append (period p : Int) (readings : List (Int × α)) (r : Int × α) :
    readingsAt period p (readings ++ [r]) =
      if r.1.emod period = p then readingsAt period p readings ++ [r.2] else readingsAt period p readings := by
  unfold readingsAt
  rw [List.filter_append, List.map_append]
  by_cases hp : r.1.emod period = p <;> simp [hp]

omit [Scalar α] in
/-- With a reading for each shot the phases that some shot has are those with a reading. -/
theorem readingsAt_ne_nil_iff (hlen : shots.length = values.length) :
    readingsAt period p (shots.zip values) ≠ [] ↔ HasPhase period shots p := by
  have hshots : ∀ shot, shot ∈ shots ↔ ∃ r ∈ shots.zip values, r.1 = shot := by
    intro shot
    conv_lhs => rw [← List.map_fst_zip hlen.le]
    exact List.mem_map
  unfold readingsAt HasPhase
  rw [ne_eq, List.eq_nil_iff_forall_not_mem, not_forall_not]
  simp only [List.mem_map, List.mem_filter, beq_iff_eq, hshots]
  constructor
  · rintro ⟨_, r, ⟨hr, hphase⟩, -⟩
    exact ⟨r.1, ⟨r, hr, rfl⟩, hphase⟩
  · rintro ⟨_, ⟨r, hr, rfl⟩, hphase⟩
    exact ⟨r.2, r, ⟨hr, hphase⟩, rfl⟩

/-! ## The tally of all readings -/

/-- At each phase there are the sum and the number of its readings. -/
structure Tally.Holds (t : Tally α) (period : Int) (readings : List (Int × α)) : Prop where
  total : ∀ p : Nat, t.totals[p]? = if p < period.toNat then some (magnitude (readingsAt period p readings)) else none
  count : ∀ p : Nat, t.counts[p]? = if p < period.toNat then some (readingsAt period p readings).length else none

theorem Tally.holds_empty (period : Int) : (empty period.toNat : Tally α).Holds period [] where
  total _ := Array.getElem?_replicate
  count _ := Array.getElem?_replicate

/-- A reading changes the sum and the number at its own phase only. -/
theorem Tally.Holds.add {t : Tally α} (h : t.Holds period readings) (hperiod : 0 < period) (r : Int × α) :
    (t.add period r).Holds period (readings ++ [r]) := by
  have hphase : ∀ p : Nat, (r.1.emod period).toNat = p ↔ r.1.emod period = (p : Int) := fun p => by
    have hnonneg : 0 ≤ r.1.emod period := Int.emod_nonneg r.1 hperiod.ne'
    omega
  constructor
  case total =>
    intro p
    rw [Tally.add, Array.getElem?_modify, h.total, readingsAt_append]
    simp only [hphase]
    by_cases hr : r.1.emod period = p <;> by_cases hp : p < period.toNat <;> simp [hr, hp, magnitude]
  case count =>
    intro p
    rw [Tally.add, Array.getElem?_modify, h.count, readingsAt_append]
    simp only [hphase]
    by_cases hr : r.1.emod period = p <;> by_cases hp : p < period.toNat <;> simp [hr, hp]

theorem Tally.Holds.foldl (hperiod : 0 < period) : ∀ {others readings : List (Int × α)} {t : Tally α},
    t.Holds period readings → (others.foldl (Tally.add period) t).Holds period (readings ++ others)
  | [], readings, t, h => by rwa [List.append_nil]
  | r :: others, readings, t, h => by
    rw [List.append_cons]
    exact Tally.Holds.foldl hperiod (h.add hperiod r)

/-- The entries of a tally, phase by phase. -/
theorem Tally.Holds.entries_eq {t : Tally α} (h : t.Holds period readings) :
    (t.totals.toList.zip t.counts.toList).zipIdx = (List.range period.toNat).map fun (p : Nat) =>
      ((magnitude (readingsAt period p readings), (readingsAt period p readings).length), p) := by
  refine List.ext_getElem? fun p => ?_
  rw [List.getElem?_zipIdx, List.getElem?_map]
  by_cases hp : p < period.toNat
  · have hentry : (t.totals.toList.zip t.counts.toList)[p]? =
        some (magnitude (readingsAt period p readings), (readingsAt period p readings).length) :=
      List.getElem?_zip_eq_some.2 ⟨by simp [h.total, hp], by simp [h.count, hp]⟩
    rw [hentry, List.getElem?_range hp]
    simp
  · have hentry : (t.totals.toList.zip t.counts.toList)[p]? = none := by
      have htotals : t.totals.size ≤ p := Array.getElem?_eq_none_iff.1 ((h.total p).trans (if_neg hp))
      rw [List.getElem?_eq_none_iff, List.length_zip, Array.length_toList]
      omega
    rw [hentry, List.getElem?_eq_none (by simpa using hp)]
    rfl

/-! ## The running minimum -/

/-- The earlier of two candidates unless the later one is strictly lower. -/
def better (best next : Int × α) : Int × α := if Scalar.lt next.2 best.2 then next else best

/-- The first of the candidates that is not bettered by a later one. -/
def lowestOf : List (Int × α) → Option (Int × α)
  | [] => none
  | first :: others => some (others.foldl better first)

/-- Phases without a reading are left out. -/
theorem consider_eq (best : Option (Int × α)) (p : Nat) (readings : List (Int × α)) :
    consider best p (magnitude (readingsAt period p readings)) (readingsAt period p readings).length =
      if readingsAt period p readings ≠ [] then some (best.elim id better (candidate period readings p)) else best := by
  unfold consider
  by_cases hp : readingsAt period p readings = []
  · simp [hp]
  · rw [if_neg (mt List.length_eq_zero_iff.1 hp), if_pos hp]
    cases best with
    | none => rfl
    | some best =>
      dsimp only [Option.elim, better, candidate, meanMagnitude]
      split <;> rfl

theorem foldl_better (best : Option (Int × α)) (cs : List (Int × α)) :
    cs.foldl (fun best c => some (best.elim id better c)) best = best.elim (lowestOf cs) fun b =>
      some (cs.foldl better b) := by
  induction cs generalizing best with
  | nil => cases best <;> rfl
  | cons c cs ih =>
    rw [List.foldl_cons, ih]
    cases best <;> rfl

/-- Going through all phases and leaving out those that no shot has. -/
theorem lowestOf_candidates (period : Int) (shots : List Int) (readings : List (Int × α)) :
    lowestOf (candidates period shots readings) = (List.range period.toNat).foldl (fun best (p : Nat) =>
      if HasPhase period shots p then some (best.elim id better (candidate period readings p)) else best) none := by
  symm
  calc (List.range period.toNat).foldl (fun best (p : Nat) =>
        if HasPhase period shots p then some (best.elim id better (candidate period readings p)) else best) none
    _ = ((List.range period.toNat).map Int.ofNat).foldl (fun best p =>
          if HasPhase period shots p then some (best.elim id better (candidate period readings p)) else best) none := by
        rw [List.foldl_map]
        rfl
    _ = (phases period shots).foldl (fun best p => some (best.elim id better (candidate period readings p))) none := by
        rw [phases, List.foldl_filter]
        simp only [decide_eq_true_eq]
    _ = (candidates period shots readings).foldl (fun best c => some (best.elim id better c)) none := by
        rw [candidates, List.foldl_map]
    _ = lowestOf (candidates period shots readings) := foldl_better none _

/-- The offset is detected from the phases that some shot has. -/
theorem detectOffset_eq (hperiod : 0 < period) (hlen : shots.length = values.length) :
    detectOffset shots values period = match lowestOf (candidates period shots (shots.zip values)) with
      | none => fail (Report.new .classify "reference_empty" "reference signal has no samples")
      | some (phase, _) => .ok phase := by
  have htally : ((shots.zip values).foldl (Tally.add period) (.empty period.toNat)).Holds period (shots.zip values) :=
    (Tally.holds_empty period).foldl hperiod
  unfold detectOffset
  rw [if_neg hperiod.not_ge, if_neg (not_not.2 hlen)]
  dsimp only
  rw [htally.entries_eq, List.foldl_map]
  -- with the lowest phase known both sides come to the same
  rcases hlowest : lowestOf (candidates period shots (shots.zip values)) with _ | ⟨phase, mean⟩ <;>
    rw [lowestOf_candidates] at hlowest <;>
    simp only [consider_eq, readingsAt_ne_nil_iff hlen, hlowest]

end ShotTally.Modulator
