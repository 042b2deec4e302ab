/-
Switching off splits folds conditions into each other. Where a query has an average, so has the query with some
of its splits switched off, and under every rule the bucket of a condition then comes to all buckets whose
conditions become it: their weights added up and the weighted mean of their averages. Numbers are exact here;
files with a row for each shot and files with a single row go side by side, and the phase of the modulator may
be found, known or not needed at all.
-/
import ShotTally.Proofs.Bucket.Folding
import ShotTally.Proofs.Codec.Rational
import ShotTally.Proofs.Run.Slicing
import ShotTally.Proofs.Statistics.Together

namespace ShotTally

open Exact

/-! ## Averages that fold -/

/-- Averages with separate conditions and with common ones: under every rule the bucket of a condition comes to all
buckets whose conditions become it. -/
structure WeightedAverage.Folded (off : Splits) (rules : Nat) (a a' : WeightedAverage ℚ) : Prop where
  bucketShape : a.bucketShape = [Condition.all.length, rules] ∧ a'.bucketShape = [Condition.all.length, rules]
  dataShape : a'.dataShape = a.dataShape
  bucket : ∀ j < rules, ∃ block : Condition → List ℚ × ℚ, ∀ c, a.bucket? c j = some (block c) ∧
    a'.bucket? c j = some (together (volume a.dataShape) ((c.becoming off).map block))

/-- By place, with weights that are not negative. -/
def WeightedAverage.FoldsTo (off : Splits) (rules : List (Option String)) (a a' : WeightedAverage ℚ) : Prop :=
  ∃ inner block block', a.ByPlace rules inner block ∧ a'.ByPlace rules inner block' ∧
    (∀ p ∈ places rules, 0 ≤ (block p).2) ∧
    ∀ c, ∀ rule ∈ rules, block' (c, rule) = together (volume inner) ((c.becoming off).map fun c' => block (c', rule))

namespace WeightedAverage

variable {off : Splits} {rules : List (Option String)} {a a' : WeightedAverage ℚ}

theorem FoldsTo.folded (h : FoldsTo off rules a a') : a.Folded off rules.length a' := by
  obtain ⟨inner, block, block', ha, ha', -, hfold⟩ := h
  constructor
  case bucketShape => exact ⟨by rw [ha.blocks]; rfl, by rw [ha'.blocks]; rfl⟩
  case dataShape => rw [ha.dataShape_eq, ha'.dataShape_eq]
  case bucket =>
    intro j hj
    have hrule : rules[j]? = some rules[j] := List.getElem?_eq_getElem hj
    refine ⟨fun c => block (c, rules[j]), fun c => ⟨ha.bucket?_eq hrule, ?_⟩⟩
    rw [ha'.bucket?_eq hrule, hfold c _ (List.getElem_mem hj), ha.dataShape_eq]

/-- Combining and folding commute. -/
theorem carries_foldsTo : Carries (FoldsTo off rules) := by
  rintro a a' b b' v ⟨inner, block, block', ha, ha', hweight, hfold⟩
    ⟨inner₂, block₂, block₂', hb, hb', hweight₂, hfold₂⟩ h
  rw [ha.blocks, hb.blocks, combine_ofBlocks ha.width hb.width] at h
  obtain ⟨rfl, rfl⟩ := h
  refine ⟨_, ?_, inner, fun p => combineBlock (block p) (block₂ p), fun p => combineBlock (block' p) (block₂' p),
    ⟨rfl, fun p hp => length_combineBlock (ha.width p hp) (hb.width p hp)⟩,
    ⟨rfl, fun p hp => length_combineBlock (ha'.width p hp) (hb'.width p hp)⟩,
    fun p hp => add_nonneg (hweight p hp) (hweight₂ p hp), fun c rule hrule => ?_⟩
  · rw [ha'.blocks, hb'.blocks, combine_ofBlocks ha'.width hb'.width]
    exact ⟨rfl, rfl⟩
  · have hmem : ∀ c', (c', rule) ∈ places rules := fun c' => mem_places.2 hrule
    dsimp only
    rw [hfold c rule hrule, hfold₂ c rule hrule]
    exact combineBlock_together (fun c' _ => ⟨ha.width _ (hmem c'), hweight _ (hmem c')⟩)
      fun c' _ => ⟨hb.width _ (hmem c'), hweight₂ _ (hmem c')⟩

/-- Buckets that fold have averages that fold. -/
theorem foldsTo_of_buckets {b b' : FileBuckets ℚ} (h : FileBuckets.FoldsTo off rules b b') (hne : rules ≠ []) :
    ∃ a a', (do (← b.sums).average) = .ok a ∧ (do (← b'.sums).average) = .ok a' ∧ FoldsTo off rules a a' := by
  obtain ⟨inner, table, table', hb, hb', hperm⟩ := h
  obtain ⟨a, ha, hplaced⟩ := exists_average_byPlace hne hb
  obtain ⟨a', ha', hplaced'⟩ := exists_average_byPlace hne hb'
  refine ⟨a, a', ha, ha', inner, _, _, hplaced, hplaced', fun p _ => Nat.cast_nonneg _, fun c rule hrule => ?_⟩
  have hfits : ∀ {t : Place → List (List ℚ)} {b : FileBuckets ℚ}, b.ByPlace rules inner t →
    ∀ c', Tensor.Fits inner (t (c', rule)) :=
    fun ht c' => ht.holds.fits _ (List.mem_map_of_mem (mem_places.2 hrule))
  have htogether : together (volume inner) (((c.becoming off).map fun c' => table (c', rule)).map (blockOf inner)) =
      blockOf inner ((c.becoming off).map fun c' => table (c', rule)).flatten := by
    refine together_blockOf fun t ht => ?_
    obtain ⟨c', -, rfl⟩ := List.mem_map.1 ht
    exact hfits hb c'
  rw [blockOf_perm (hfits hb' c) (hperm c rule hrule), List.flatMap_def, ← htogether, List.map_map]
  rfl

end WeightedAverage

/-! ## Files -/

namespace ReadingPlan

open WeightedAverage (FoldsTo)

variable {plan : ReadingPlan} {load : String → Outcome ShotFile} {q : Query} {preds : List Rule.Predicate}
    {s t : Splits}
  {modulator : Signal}

theorem averageOf_folded (hpreds : Rule.Predicate.compileAll q.rules = .ok preds) (hsplits : t.Within s)
    (hmodulator : t.modulator = true → modulator = plan.modulator) {name : String} {o : Option (WeightedAverage ℚ)}
    (h : plan.averageOf load { q with splits := s } preds name = .ok o) :
    ∃ o', { plan with modulator := modulator }.averageOf load { q with splits := t } preds name = .ok o' ∧
      Option.Rel (FoldsTo (s.without t) q.rules) o o' := by
  have hnil : ∀ hq : q.rules = [], o = none := fun hq => averageOf_of_nil (q := { q with splits := s }) hq h
  obtain ⟨x, hx, h⟩ := bind_eq_ok.1 h
  obtain ⟨file, hload, hsorted⟩ := bind_eq_ok.1 hx
  obtain ⟨x', hx', hfolds⟩ := sorted_folded hpreds hsplits hmodulator (Outcome.within_eq_ok.1 hsorted)
  -- the same file is read, with the other splits and the other modulator
  have hread : ({ plan with modulator := modulator } : ReadingPlan).bucketsOf load
    { q with splits := t } preds name = .ok x' :=
    bind_eq_ok.2 ⟨file, hload, Outcome.within_eq_ok.2 hx'⟩
  cases hfolds with
  | none =>
    cases h
    exact ⟨none, bind_eq_ok.2 ⟨none, hread, rfl⟩, .none⟩
  | @some b b' hfolds =>
    obtain ⟨v, hv, h⟩ := bind_eq_ok.1 h
    cases h
    have hne : q.rules ≠ [] := fun hq => by cases hnil hq
    obtain ⟨a, a', ha, ha', hboth⟩ := WeightedAverage.foldsTo_of_buckets hfolds hne
    obtain rfl : a = v := Except.ok.inj (ha.symm.trans hv)
    exact ⟨some a', bind_eq_ok.2 ⟨some b', hread, bind_eq_ok.2 ⟨a', ha', rfl⟩⟩, .some hboth⟩

end ReadingPlan

/-! ## Runs -/

namespace Run

variable {r : Run} {d : Disk} {offset : Option Int} {q : Query} {s t : Splits}

/-- With fewer splits the plan differs in the phase of the modulator at most, and not where the modulator still splits. -/
theorem planOn_within (hsplits : t.Within s) {plan : ReadingPlan} (h : r.planOn d offset s = .ok plan) :
    ∃ modulator, r.planOn d offset t = .ok { plan with modulator := modulator } ∧
      (t.modulator = true → modulator = plan.modulator) := by
  have hsettled : ∀ splits, ¬ r.NeedsOffset splits →
      r.planOn d offset splits = .ok (r.planWith (r.classifier.modulatorOffset.getD 0)) := fun splits hn =>
    planOn_of_settled (if_neg hn)
  by_cases ht : r.NeedsOffset t
  · have hs : r.NeedsOffset s := ⟨hsplits.modulator ht.1, ht.2⟩
    have hplans : r.planOn d offset t = r.planOn d offset s := by
      unfold planOn settledPlan
      rw [if_pos ht, if_pos hs]
    exact ⟨plan.modulator, hplans.trans h, fun _ => rfl⟩
  · obtain ⟨o, rfl⟩ := exists_planWith h
    refine ⟨_, hsettled t ht, fun hm => ?_⟩
    have hs : ¬ r.NeedsOffset s := fun hs => ht ⟨hm, hs.2⟩
    exact congrArg ReadingPlan.modulator (Except.ok.inj ((hsettled s hs).symm.trans h))

/-- The average of a query with fewer splits. -/
theorem averageOn_folded (hsplits : t.Within s) {size : Option Nat} {a : WeightedAverage ℚ}
    (h : r.averageOn d offset { q with splits := s } size = .ok a) :
    ∃ a', r.averageOn d offset { q with splits := t } size = .ok a' ∧ a.FoldsTo (s.without t) q.rules a' := by
  have hs := positive_of_averageOn h
  obtain ⟨hfiles, preds, hpreds, plan, hplan, htotal⟩ := (averageOn_eq_ok hs).1 h
  obtain ⟨modulator, hplan', hmodulator⟩ := planOn_within hsplits hplan
  obtain ⟨o', ho', hrel⟩ := ReadingPlan.totalOf_carried WeightedAverage.carries_foldsTo
    (fun _ _ _ => ReadingPlan.averageOf_folded hpreds hsplits hmodulator) htotal
  cases hrel with
  | @some _ a' hfolds => exact ⟨a', (averageOn_eq_ok hs).2 ⟨hfiles, preds, hpreds, _, hplan', ho'⟩, hfolds⟩

/-- Switching off splits folds conditions into each other. With the shelf left alone and whatever the blocks, where a
query has an average with some splits, it has one with some of them switched off. For every rule and condition the weight
of the bucket is then the sum of the weights of all buckets whose conditions become this one when the flags of the
switched-off splits are cleared, and its average is the weighted mean of theirs, zeros when there is no weight. -/
theorem average_folded (r : Run) (q : Query) (opts : AverageOptions) (scene : Scene) (s t : Splits)
    (hsplits : t.Within s)
    {a : RunAverage ℚ} (ha : ((r.average { q with splits := s } opts.withoutShelf).run scene).1 = .ok a) :
    ∃ a' : RunAverage ℚ, ((r.average { q with splits := t } opts.withoutShelf).run scene).1 = .ok a' ∧
      a.average.Folded (s.without t) q.rules.length a'.average := by
  have hon : r.averageOn scene.disk scene.memory.offset { q with splits := s } opts.blockSize = .ok a.average := by
    rw [← outcome_average r _ opts scene, ha]
    rfl
  obtain ⟨v, hv, hfolds⟩ := averageOn_folded hsplits hon
  obtain ⟨a', ha', rfl⟩ := map_eq_ok.1 ((outcome_average r _ opts scene).trans hv)
  exact ⟨a', ha', hfolds.folded⟩

theorem average_spectra_folded : Splits.Within ⟨true, false⟩ .both ∧ ∃ a a' : RunAverage ℚ,
    ((spectraRun.average { bySpectrum with splits := .both } AverageOptions.standard.withoutShelf).run
        ⟨.empty [], .fresh, [], ""⟩).1 = .ok a ∧
      a.average.weights.data = [2, 2, 0, 0, 0, 0, 1, 0] ∧
      ((spectraRun.average { bySpectrum with splits := ⟨true, false⟩ } AverageOptions.standard.withoutShelf).run
        ⟨.empty [], .fresh, [], ""⟩).1 = .ok a' ∧
      a.average.Folded ⟨false, true⟩ 2 a'.average := by
  have hsplits : Splits.Within ⟨true, false⟩ .both := ⟨fun _ => rfl, fun h => by cases h⟩
  obtain ⟨a, ha, hweights⟩ : ∃ a : RunAverage ℚ,
      ((spectraRun.average { bySpectrum with splits := .both } AverageOptions.standard.withoutShelf).run
        ⟨.empty [], .fresh, [], ""⟩).1 = .ok a ∧ a.average.weights.data = [2, 2, 0, 0, 0, 0, 1, 0] := by decide +kernel
  obtain ⟨a', ha', hfolded⟩ :=
    average_folded spectraRun bySpectrum AverageOptions.standard ⟨.empty [], .fresh, [], ""⟩ .both
    ⟨true, false⟩ hsplits ha
  exact ⟨hsplits, a, a', ha, hweights, ha', hfolded⟩

end Run
end ShotTally
