/-
A file sorted with fewer splits. Under every rule the bucket of a condition then has the rows of all buckets
whose conditions become that one, each of them once. Whatever elements an array has, rows that can be
selected for the separate conditions can be selected for the common one.
-/
import ShotTally.Proofs.Bucket.Places
import ShotTally.Proofs.Condition.Folding

namespace ShotTally

open Tensor

variable {α : Type}

/-! ## Selected rows by number -/

namespace Tensor

theorem length_placesSet (flags : List Bool) : (placesSet flags).length = flags.count true := by
  induction flags with
  | nil => rfl
  | cons flag flags ih =>
    rw [placesSet_cons, List.length_append, List.length_map, ih]
    cases flag
    · simp
    · rw [if_pos rfl, List.count_cons_self, List.length_singleton, Nat.add_comm]

/-- Rows are kept when all elements of each of them are there. -/
theorem keepRows_eq_ok {width : Nat} :
    ∀ {flags : List Bool} {data kept : List α}, keepRows width flags data = .ok kept ↔
    (∀ i ∈ placesSet flags, ((data.drop (i * width)).take width).length = width) ∧
      kept = (placesSet flags).flatMap fun i => (data.drop (i * width)).take width
  | [], data, kept => by simp [keepRows, placesSet, eq_comm]
  | flag :: flags, data, kept => by
    rw [placesSet_cons, List.flatMap_append, List.flatMap_map]
    simp only [List.mem_append, List.mem_map, or_imp, forall_and, forall_exists_index, and_imp,
      forall_apply_eq_imp_iff₂,
      Nat.succ_eq_add_one, drop_succ_mul]
    -- a flag that is set takes a row off the data; otherwise the row is passed over
    cases flag with
    | false =>
      unfold keepRows
      rw [keepRows_eq_ok]
      simp
    | true =>
      unfold keepRows
      rw [bind_eq_ok]
      simp only [if_true, List.mem_singleton, forall_eq, Nat.zero_mul, List.drop_zero, List.flatMap_singleton]
      constructor
      · rintro ⟨⟨first, rest⟩, hfirst, h⟩
        obtain ⟨others, hothers, h⟩ := bind_eq_ok.1 h
        cases h
        obtain ⟨rfl, hlen⟩ := takeExactly_eq_ok.1 hfirst
        obtain ⟨hall, rfl⟩ := keepRows_eq_ok.1 hothers
        rw [List.take_left' hlen, List.drop_left' hlen]
        exact ⟨⟨hlen, hall⟩, rfl⟩
      · rintro ⟨⟨hlen, hall⟩, rfl⟩
        refine ⟨(data.take width, data.drop width),
          takeExactly_eq_ok.2 ⟨(List.take_append_drop width data).symm, hlen⟩, ?_⟩
        exact bind_eq_ok.2 ⟨_, keepRows_eq_ok.2 ⟨hall, rfl⟩, rfl⟩

/-- Selecting succeeds when all elements of the selected rows are there, and gives these rows. -/
theorem selectRows_eq_ok_iff {flags : List Bool} {t u : Tensor α} : t.selectRows flags = .ok u ↔
    flags.length = t.rowCount ∧ (∀ i ∈ placesSet flags, (t.rowAt i).length = t.rowWidth) ∧
      u = ofRows t.innerShape ((placesSet flags).map t.rowAt) := by
  unfold selectRows
  by_cases hlen : flags.length = t.rowCount
  · rw [if_neg (not_not.2 hlen), bind_eq_ok, ofRows, List.length_map, length_placesSet, ← List.flatMap_def]
    simp only [keepRows_eq_ok, pure_eq_ok, Except.ok.injEq]
    constructor
    · rintro ⟨kept, ⟨hall, rfl⟩, rfl⟩
      exact ⟨hlen, hall, rfl⟩
    · rintro ⟨-, hall, rfl⟩
      exact ⟨_, ⟨hall, rfl⟩, rfl⟩
  · rw [if_pos hlen]
    exact ⟨fun h => (by cases h), fun h => absurd h.1 hlen⟩

/-- Rows that can be selected for each of the conditions can be selected for what conditions become. -/
theorem selectRows_cleared {t : Tensor α} {conditions : List Condition} {mask : List Bool}
    (h : ∀ c : Condition, ∃ u, t.selectRows ((c.flagsAmong conditions).zipWith (· && ·) mask) = .ok u) (off : Splits)
    (c : Condition) :
    t.selectRows ((c.flagsAmong (conditions.map (·.cleared off))).zipWith (· && ·) mask) = .ok (ofRows t.innerShape
      ((placesSet ((c.flagsAmong (conditions.map (·.cleared off))).zipWith (· && ·) mask)).map t.rowAt)) := by
  refine selectRows_eq_ok_iff.2 ⟨?_, fun i hi => ?_, rfl⟩
  · obtain ⟨u, hu⟩ := h c
    simpa [Condition.flagsAmong] using length_of_selectRows hu
  · -- a row of the common bucket is a row of a separate one
    rw [(placesSet_cleared_perm conditions mask off c).mem_iff, List.mem_flatMap] at hi
    obtain ⟨c', -, hi⟩ := hi
    obtain ⟨u, hu⟩ := h c'
    exact (selectRows_eq_ok_iff.1 hu).2.1 i hi

/-- What was selected is the rows with these numbers. -/
theorem fits_rowAt {flags : List Bool} {t u : Tensor α} (h : t.selectRows flags = .ok u) :
    Fits t.innerShape ((placesSet flags).map t.rowAt) ∧ u = ofRows t.innerShape ((placesSet flags).map t.rowAt) := by
  obtain ⟨-, hall, hu⟩ := selectRows_eq_ok_iff.1 h
  refine ⟨fun row hrow => ?_, hu⟩
  obtain ⟨i, hi, rfl⟩ := List.mem_map.1 hrow
  exact hall i hi

end Tensor

/-! ## Files -/

/-- The buckets of the second file have the rows of all buckets of the first whose conditions become theirs. -/
def FileBuckets.FoldsTo (off : Splits) (rules : List (Option String)) (b b' : FileBuckets α) : Prop :=
  ∃ inner table table', b.ByPlace rules inner table ∧ b'.ByPlace rules inner table' ∧
    ∀ c, ∀ rule ∈ rules, (table' (c, rule)).Perm ((c.becoming off).flatMap fun c' => table (c', rule))

theorem ShotFlags.conditions_classify (splits : Splits) (source modulator : Signal) (shots : List Int) :
    (classify source modulator shots).conditions splits =
      shots.map fun shot => splits.conditionOf (source.isOff shot) (modulator.isOff shot) := by
  simp [conditions, classify, List.zipWith_map, List.zipWith_self]

namespace ReadingPlan

variable {plan : ReadingPlan} {file : ShotFile} {name : String} {q : Query} {preds : List Rule.Predicate} {s t : Splits}
  {modulator : Signal}

/-- The conditions of what is selected are cleared when splits are switched off, and the rules select the same. -/
theorem exists_conditions {perShot : Bool} {shots : List Int} {selections : Selections} (hsplits : t.Within s)
    (hmodulator : t.modulator = true → modulator = plan.modulator)
    (h : (if perShot then plan.shotSelections file s preds shots else .ok (selectSingle preds)) = .ok selections) :
    ∃ conditions masks, selections = ⟨Condition.all.map fun c => c.flagsAmong conditions, masks⟩ ∧
      (if perShot then { plan with modulator := modulator }.shotSelections file t preds shots else .ok (selectSingle preds)) =
        .ok (⟨Condition.all.map fun c => c.flagsAmong (conditions.map (·.cleared (s.without t))), masks⟩ :
          Selections) := by
  cases perShot with
  | false => exact ⟨[.sourceOnModulatorOn], _, (Except.ok.inj h).symm, rfl⟩
  | true =>
    obtain ⟨masks, hmasks, rfl⟩ := shotSelections_eq_ok.1 h
    -- clearing the splits that `t` lacks gives the conditions under `t`
    have hcleared : ((ShotFlags.classify ⟨plan.sourcePeriodIn file, plan.sourceOffset⟩ plan.modulator
      shots).conditions s).map
        (·.cleared (s.without t)) =
        (ShotFlags.classify ⟨plan.sourcePeriodIn file, plan.sourceOffset⟩ modulator shots).conditions t := by
      rw [ShotFlags.conditions_classify, ShotFlags.conditions_classify, List.map_map]
      exact List.map_congr_left fun shot _ => Splits.cleared_conditionOf hsplits fun ht => by rw [hmodulator ht]
    refine ⟨_, masks, rfl, shotSelections_eq_ok.2 ⟨masks, hmasks, ?_⟩⟩
    rw [hcleared]
    rfl

variable [Scalar α]

/-- A file that is sorted is sorted with fewer splits. -/
theorem sorted_folded (hpreds : Rule.Predicate.compileAll q.rules = .ok preds) (hsplits : t.Within s)
    (hmodulator : t.modulator = true → modulator = plan.modulator) {x : Option (FileBuckets α)}
    (h : plan.sorted file name { q with splits := s } preds = .ok x) :
    ∃ x', { plan with modulator := modulator }.sorted file name { q with splits := t } preds = .ok x' ∧
      Option.Rel (FileBuckets.FoldsTo (s.without t) q.rules) x x' := by
  obtain ⟨hlen, shots, hshots, ⟨hnone, rfl⟩ | ⟨array, layout, data, perShot, selections, rows, hs, rfl⟩⟩ :=
    sorted_eq_ok.1 h
  · exact ⟨none, sorted_eq_ok.2 ⟨hlen, shots, hshots, .inl ⟨hnone, rfl⟩⟩, .none⟩
  obtain ⟨conditions, masks, hselections, hfolded⟩ := exists_conditions hsplits hmodulator hs.selected
  obtain ⟨conditionMask, ruleMask, rfl, -⟩ := exists_selections hpreds hpreds (List.Subset.refl _) hs.selected
  obtain ⟨hconditions, rfl⟩ := Selections.mk.inj hselections
  have hrows := hs.bucketed
  rw [hselections, bucketRows_places] at hrows
  have : Nonempty (Tensor α) := ⟨⟨[], []⟩⟩
  obtain ⟨bucket, rfl, hbucket, -⟩ := exists_mapM_values hrows
  -- the places of a folded condition are those of the conditions it clears, taken together
  have hselect : ∀ p ∈ places q.rules, (data.map (Scalar.ofDouble : Double → α)).selectRows
      ((p.1.flagsAmong (conditions.map (·.cleared (s.without t)))).zipWith (· && ·) (ruleMask p.2)) = .ok _ :=
    fun p hp => selectRows_cleared (fun c => ⟨_, hbucket (c, p.2) (mem_places.2 ((mem_places (p := p)).1 hp))⟩) _ _
  have hrows' := mapM_ok_of_mem hselect
  rw [← bucketRows_places (fun c => c.flagsAmong (conditions.map (·.cleared (s.without t)))) ruleMask] at hrows'
  refine ⟨_, sorted_eq_ok.2 ⟨hlen, shots, hshots, .inr ⟨array, layout, data, perShot, _, _,
    ⟨hs.indices, hs.quantity, hs.arranged, hs.sliced, hfolded, hrows'⟩, rfl⟩⟩, .some ?_⟩
  refine ⟨_, _, _, FileBuckets.byPlace_of_rows fun p hp => fits_rowAt (hbucket p hp),
    FileBuckets.byPlace_of_rows fun p hp => fits_rowAt (hselect p hp), fun c rule _ => ?_⟩
  rw [← List.map_flatMap]
  exact (placesSet_cleared_perm conditions (ruleMask rule) (s.without t) c).map _

end ReadingPlan
end ShotTally
