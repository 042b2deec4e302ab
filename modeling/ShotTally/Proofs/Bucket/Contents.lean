/-
What the buckets of a file hold. A quantity with a row for each shot is sliced sample by sample, and under
every rule the samples of the selected shots are divided among the four conditions, in the order of the
shots; a quantity without is one sample, which is in the first condition of every rule.
-/
import ShotTally.Proofs.Bucket.Evenness
import ShotTally.Proofs.Condition.Partition
import ShotTally.Proofs.Shot.Arrays
import ShotTally.Proofs.Slice.Rows

namespace ShotTally

open Tensor

variable {α : Type}

/-! ## Samples -/

/-- The quantity has an entry along axis 0 for each shot. -/
def Tensor.PerShot (array : Tensor α) (shots : Nat) : Prop := array.shape.head? = some shots

instance (array : Tensor α) (shots : Nat) : Decidable (array.PerShot shots) := inferInstanceAs (Decidable (_ = _))

/-- Shape of a sample as the buckets hold it; a single number is a sample of one element. -/
def sampleShape (shape : List Nat) : List Nat := if shape = [] then [1] else shape

theorem volume_sampleShape (shape : List Nat) : volume (sampleShape shape) = volume shape := by
  unfold sampleShape
  split
  · subst shape
    rfl
  · rfl

/-- Shape of the rows as which the quantity is sliced: those of the shots, or the quantity as a whole. -/
def Tensor.rowShape (array : Tensor α) (shots : Nat) : List Nat :=
  sampleShape (if array.PerShot shots then array.innerShape else array.shape)

namespace ReadingPlan

/-- A quantity with a row for each shot is taken as these rows. -/
theorem arrange_of_perShot {array : Tensor α} {shots : Nat} (h : array.WellFormed) (hper : array.PerShot shots) :
    ∃ samples, array.rows = .ok samples ∧ samples.length = shots ∧ samples.flatten = array.data ∧
      Fits (sampleShape array.innerShape) samples ∧
      arrange array shots = .ok (ofRows (sampleShape array.innerShape) samples, true) := by
  obtain ⟨shape, data⟩ := array
  obtain _ | ⟨n, inner⟩ := shape
  · cases hper
  obtain rfl : n = shots := Option.some.inj hper
  obtain ⟨samples, rfl, hfit, harray⟩ := h.exists_ofRows rfl
  rw [harray, innerShape_ofRows]
  have hsample : Fits (sampleShape inner) samples := by
    simpa only [Fits, volume_sampleShape] using hfit
  refine ⟨samples, hfit.rows_ofRows, rfl, rfl, hsample, ?_⟩
  -- readings without an inner axis get one of length one
  cases inner with
  | nil =>
    have hsize : samples.flatten.length = samples.length := by simpa [volume] using hfit.length_flatten
    simp [arrange, ofRows, size, reshape, volume, hsize, sampleShape]
  | cons m inner =>
    simp [arrange, ofRows, sampleShape]

/-- Any other quantity is taken as a single row. -/
theorem arrange_of_not_perShot {array : Tensor α} {shots : Nat} (h : array.WellFormed) (hper : ¬ array.PerShot shots) :
    arrange array shots = .ok (ofRows (sampleShape array.shape) [array.data], false) := by
  obtain ⟨shape, data⟩ := array
  have hlen : data.length = volume shape := h
  rcases shape with _ | ⟨n, _ | ⟨m, inner⟩⟩
  · simp [arrange, reshape, volume, hlen, ofRows, sampleShape]
  · have hn : data.length = n := by simpa [volume] using hlen
    have hne : ¬ n = shots := fun heq => hper (congrArg some heq)
    simp [arrange, reshape, size, volume, hn, hne, ofRows, sampleShape]
  · have hne : ¬ n = shots := fun heq => hper (congrArg some heq)
    simp [arrange, reshape, volume_cons, hlen, hne, ofRows, sampleShape]

/-! ## Rows of the buckets -/

variable {inner : List Nat} {rows : List (List α)} {masks : List (List Bool)} {conditionMask : Condition → List Bool}

/-- With a flag for each row from every condition and rule, a bucket has the rows that both select. -/
theorem bucketRows_ofRows (h : Fits inner rows) (hc : ∀ c, (conditionMask c).length = rows.length)
    (hm : ∀ mask ∈ masks, mask.length = rows.length) :
    bucketRows ⟨Condition.all.map conditionMask, masks⟩ (ofRows inner rows) = .ok (Condition.all.flatMap fun c =>
      masks.map fun mask => ofRows inner (chosen ((conditionMask c).zipWith (· && ·) mask) rows)) := by
  have hselect : ∀ flags ∈ Condition.all.flatMap fun c => masks.map fun mask => (conditionMask c).zipWith (· && ·) mask,
      (ofRows inner rows).selectRows flags = .ok (ofRows inner (chosen flags rows)) := by
    intro flags hflags
    obtain ⟨c, -, hflags⟩ := List.mem_flatMap.1 hflags
    obtain ⟨mask, hmask, rfl⟩ := List.mem_map.1 hflags
    exact h.selectRows_ofRows (by rw [List.length_zipWith, hc, hm mask hmask, Nat.min_self])
  unfold bucketRows
  rw [List.flatMap_map, mapM_ok_of_mem hselect, List.map_flatMap]
  simp only [List.map_map, Function.comp_def]

theorem length_maskOf (splits : Splits) (source modulator : Signal) (shots : List Int) (c : Condition) :
    ((ShotFlags.classify source modulator shots).maskOf splits c).length = shots.length := by
  simp [ShotFlags.maskOf, ShotFlags.conditions, ShotFlags.classify]

theorem length_of_mask {rule : Rule.Predicate} {accessor : Rule.Accessor} {shots : Nat} {mask : List Bool}
    (h : rule.mask accessor shots = .ok mask) : mask.length = shots := by
  obtain ⟨value, -, h⟩ := bind_eq_ok.1 h
  unfold Rule.Mask.toFlags at h
  cases value with
  | constant b =>
    cases h
    exact List.length_replicate
  | flags bs =>
    dsimp only at h
    split at h
    · cases h
      assumption
    · cases h

theorem shotSelections_eq_ok {plan : ReadingPlan} {file : ShotFile} {splits : Splits} {rules : List Rule.Predicate}
    {shots : List Int} {selections : Selections} : plan.shotSelections file splits rules shots = .ok selections ↔
      ∃ masks, List.Forall₂ (fun rule mask =>
          rule.mask (file.accessor plan.aliases shots.length) shots.length = .ok mask) rules masks ∧
        selections = ⟨Condition.all.map
          ((ShotFlags.classify ⟨plan.sourcePeriodIn file, plan.sourceOffset⟩ plan.modulator
          shots).maskOf splits), masks⟩ := by
  unfold shotSelections
  simp only [bind_eq_ok, mapM_eq_ok, pure_eq_ok, Except.ok.injEq, ShotFlags.masks]
  exact exists_congr fun masks => and_congr_right fun _ => eq_comm

theorem selectSingle_eq (rules : List Rule.Predicate) : selectSingle rules =
    ⟨Condition.all.map fun c => [c == .sourceOnModulatorOn], rules.map fun _ => [true]⟩ := rfl

end ReadingPlan

/-! ## Buckets of a file -/

/-- The rows of the bucket of a condition and a rule. -/
def FileBuckets.bucket? (b : FileBuckets α) (c : Condition) (j : Nat) : Option (Tensor α) :=
  entryAt b.bucketShape b.rows c j

/-- A bucket for each condition and rule, whose rows all have one shape. -/
structure FileBuckets.Uniform (b : FileBuckets α) (rules : Nat) (inner : List Nat) : Prop where
  bucketShape : b.bucketShape = [Condition.all.length, rules]
  count : b.rows.length = Condition.all.length * rules
  rows : ∀ t ∈ b.rows, t.innerShape = inner ∧ t.WellFormed

/-- Under a rule with this mask, the bucket of each condition has the sliced samples of the shots that the rule
selects and that have the condition, in the order of the shots. -/
structure FileBuckets.DividesShots [Scalar α] (b : FileBuckets α) (inner : List Nat) (splits : Splits)
    (source modulator : Signal) (shots : List Int) (sliced : List (List Double)) (mask : List Bool) (j : Nat)
    (picked : Condition → List Nat) : Prop where
  picks : ∀ c, Picks splits source modulator shots mask c (picked c)
  /-- Over the conditions no selected shot is lost, and none is there twice. -/
  partition : (Condition.all.flatMap picked).Perm (placesSet mask)
  rows : ∀ c, ∃ rows, List.Forall₂ (fun i row => sliced[i]? = some row) (picked c) rows ∧
    b.bucket? c j = some (ofRows inner (rows.map (List.map Scalar.ofDouble)))

namespace ReadingPlan

variable [Scalar α] {plan : ReadingPlan} {file : ShotFile} {name : String} {q : Query} {rules : List Rule.Predicate}

/-- The steps of sorting behind the buckets of a file. -/
theorem exists_sorts {b : FileBuckets α}
    (h : (plan.compile file name q rules : Noted (Option (FileBuckets α))).outcome = .ok (some b)) :
    rules.length = q.rules.length ∧ ∃ shots array layout data perShot selections rows,
      Sorts plan file q rules shots array layout data perShot selections rows ∧ b = ⟨name, q.bucketShape, rows⟩ := by
  rw [(gives_compile q rules).outcome_eq] at h
  obtain ⟨hlen, shots, -, ⟨-, hb⟩ | ⟨array, layout, data, perShot, selections, rows, hs, hb⟩⟩ := sorted_eq_ok.1 h
  · cases hb
  · exact ⟨hlen, shots, array, layout, data, perShot, selections, rows, hs, Option.some.inj hb⟩

variable {shots : List Int} {array layout data : Tensor Double} {perShot : Bool} {selections : Selections}
  {rows : List (Tensor α)}

/-- Slicing what has this row view gives what has another. -/
theorem exists_sliced {inner : List Nat} {samples : List (List Double)} (hfit : Fits inner samples)
    (hsize : samples.flatten.length < Text.nat64End) (h : q.slices.apply (ofRows inner samples) = .ok data) : ∃ sliced,
      q.slices.SlicesTo inner (q.slices.shapeOf inner) samples sliced ∧ Fits (q.slices.shapeOf inner) sliced ∧
        data = ofRows (q.slices.shapeOf inner) sliced := by
  obtain ⟨sliced, hto, hfit', happly⟩ :=
    Slices.apply_ofRows (Slices.length_le_of_apply h) (Slices.lands_of_apply h) hfit hsize
  rw [happly] at h
  exact ⟨sliced, hto, hfit', (Except.ok.inj h).symm⟩

/-- A quantity with a row for each shot is divided among the buckets of every rule. -/
theorem Sorts.divides (h : Sorts plan file q rules shots array layout data perShot selections rows)
    (hwf : array.WellFormed) (hsize : array.data.length < Text.nat64End) (hlen : rules.length = q.rules.length)
    (hper : array.PerShot shots.length) : ∃ samples sliced,
      array.rows = .ok samples ∧
      q.slices.SlicesTo (sampleShape array.innerShape) data.innerShape samples sliced ∧
      ∀ j rule, rules[j]? = some rule → ∃ mask picked,
        rule.mask (file.accessor plan.aliases shots.length) shots.length = .ok mask ∧
        (⟨name, q.bucketShape, rows⟩ : FileBuckets α).DividesShots data.innerShape q.splits
          ⟨plan.sourcePeriodIn file, plan.sourceOffset⟩ plan.modulator shots sliced mask j picked := by
  -- undo the steps in order: rows of the array, slices, masks, buckets
  obtain ⟨samples, hrows, hcount, hdata, hfit, harrange⟩ := arrange_of_perShot hwf hper
  obtain ⟨rfl, rfl⟩ := Prod.mk.inj (Except.ok.inj (harrange.symm.trans h.arranged))
  obtain ⟨sliced, hto, hfit', rfl⟩ := exists_sliced hfit (hdata ▸ hsize) h.sliced
  obtain ⟨masks, hmasks, rfl⟩ := shotSelections_eq_ok.1 h.selected
  have hslicedlen : sliced.length = shots.length := hto.length_eq.symm.trans hcount
  have hmaskLength : ∀ mask ∈ masks, mask.length = shots.length := by
    intro mask hmask
    obtain ⟨rule, -, hrule⟩ := exists_of_mem_mapM (mapM_eq_ok.2 hmasks) hmask
    exact length_of_mask hrule
  have hbuckets := h.bucketed
  rw [map_ofRows, bucketRows_ofRows (hfit'.map _)
    (by simp [length_maskOf, hslicedlen]) (by simpa [hslicedlen] using hmaskLength)]
    at hbuckets
  obtain rfl := Except.ok.inj hbuckets
  refine ⟨samples, sliced, hrows, hto, fun j rule hrule => ?_⟩
  have hj : j < masks.length := by
    rw [← hmasks.length_eq]
    exact (List.getElem?_eq_some_iff.1 hrule).1
  have hmask : rule.mask (file.accessor plan.aliases shots.length) shots.length = .ok masks[j] := by
    obtain ⟨hj', rfl⟩ := List.getElem?_eq_some_iff.1 hrule
    exact (List.forall₂_iff_get.1 hmasks).2 j hj' hj
  have hmasklen : masks[j].length = shots.length := hmaskLength _ (List.getElem_mem hj)
  -- a row is in the bucket when the mask of its condition and that of the rule both hold
  refine ⟨masks[j], fun c =>
    placesSet (((ShotFlags.classify ⟨plan.sourcePeriodIn file, plan.sourceOffset⟩ plan.modulator
    shots).maskOf q.splits c).zipWith (· && ·) masks[j]), hmask, ?_⟩
  constructor
  case picks => exact fun c => picks_placesSet c
  case partition => exact Picks.partition hmasklen fun c => picks_placesSet c
  case rows =>
    intro c
    refine ⟨_, forall₂_placesSet (by simp [length_maskOf, hmasklen, hslicedlen]), ?_⟩
    have hshape : q.bucketShape = [Condition.all.length, masks.length] := by
      rw [Query.bucketShape, ← hlen, hmasks.length_eq]
    rw [FileBuckets.bucket?, hshape, entryAt_flatMap_all _ _ _ hj, List.getElem?_eq_getElem hj,
      Option.map_some, chosen_map,
      innerShape_ofRows]

/-- Any other quantity is a single sample in the first condition of every rule. -/
theorem Sorts.single (h : Sorts plan file q rules shots array layout data perShot selections rows)
    (hwf : array.WellFormed) (hsize : array.data.length < Text.nat64End) (hlen : rules.length = q.rules.length)
    (hper : ¬ array.PerShot shots.length) : ∃ sample,
      q.slices.SlicesTo (sampleShape array.shape) data.innerShape [array.data] [sample] ∧
      ∀ j < rules.length, ∀ c, (⟨name, q.bucketShape, rows⟩ : FileBuckets α).bucket? c j =
        some (ofRows data.innerShape (if c = .sourceOnModulatorOn then [sample.map Scalar.ofDouble] else [])) := by
  have hfit : Fits (sampleShape array.shape) [array.data] :=
    fits_cons.2 ⟨by rw [volume_sampleShape]; exact hwf, fits_nil⟩
  obtain ⟨rfl, rfl⟩ := Prod.mk.inj (Except.ok.inj ((arrange_of_not_perShot hwf hper).symm.trans h.arranged))
  obtain ⟨sliced, hto, hfit', rfl⟩ := exists_sliced hfit (by simpa using hsize) h.sliced
  -- the only row is in the bucket with both signals on, under every rule
  obtain ⟨sample, rfl⟩ := List.length_eq_one_iff.1 (hto.length_eq.symm.trans rfl)
  have hselected : selectSingle rules = selections := Except.ok.inj h.selected
  have hbuckets := h.bucketed
  rw [← hselected, selectSingle_eq, map_ofRows, bucketRows_ofRows (hfit'.map _) (by simp) (by simp)] at hbuckets
  obtain rfl := Except.ok.inj hbuckets
  refine ⟨sample, hto, fun j hj c => ?_⟩
  have hshape : q.bucketShape = [Condition.all.length, (rules.map fun _ => [true]).length] := by
    rw [Query.bucketShape, ← hlen, List.length_map]
  rw [FileBuckets.bucket?, hshape, entryAt_flatMap_all _ _ _ (by simpa using hj), List.getElem?_map,
    List.getElem?_eq_getElem hj, Option.map_some, Option.map_some]
  cases c <;> rfl

/-- The buckets of a file all have rows of the shape that slicing leaves. -/
theorem Sorts.uniform (h : Sorts plan file q rules shots array layout data perShot selections rows)
    (hlen : rules.length = q.rules.length) :
    (⟨name, q.bucketShape, rows⟩ : FileBuckets α).Uniform rules.length data.innerShape := by
  obtain ⟨hconditions, hrules⟩ := selected_length h.selected
  obtain ⟨hcount, hrows⟩ := bucketRows_eq_ok h.bucketed
  exact ⟨by rw [hlen]; rfl, by rw [hcount, hconditions, hrules]; rfl, hrows⟩

/-- Three shots before shot zero and three from it on, a spectrum of three channels for each, and a laser that is
on at every other shot. -/
def spectra : ShotFile :=
  .ofList [("index", .numeric ⟨[6], [-3, -2, -1, 0, 1, 2].map Double.ofInt⟩), ("period", .numeric ⟨[], [.ofNat 2]⟩),
    ("spectrum", .numeric ⟨[6, 3], (List.range 18).map Double.ofNat⟩),
    ("laser", .text ["off", "on", "off", "on", "off", "on"])]

/-- The source is off at shot zero and the modulator, with period three, at shot one. -/
def alternating : ReadingPlan := ⟨.ofList [("s", "spectrum")], "index", "period", none, 0, ⟨3, 1⟩⟩

/-- The last two channels from the end, of all shots and of those with the laser on. -/
def reversed : Query := ⟨"s", [none, some "laser:on"], .both, ⟨[⟨none, some 0, -1⟩]⟩⟩

def laserOn : Rule.Predicate := ⟨"laser:on", [⟨"laser", .textEqual, "on", none⟩], [.atom 0]⟩

def spectraBuckets : FileBuckets Double where
  file := "f"
  bucketShape := [4, 2]
  rows := [([2, 2], [2, 1, 8, 7]), ([0, 2], []), ([2, 2], [11, 10, 17, 16]), ([2, 2], [11, 10, 17, 16]),
    ([1, 2], [14, 13]),
    ([0, 2], []), ([1, 2], [5, 4]), ([1, 2], [5, 4])].map fun t => ⟨t.1, t.2.map Double.ofNat⟩

/-- A shot as far below zero as words go, and beyond. -/
def farBelow : ShotFile :=
  .ofList [("bunches", .numeric ⟨[1], [.ofInt (-10000000000000000000)]⟩), ("q", .numeric ⟨[1], [.one]⟩)]

end ReadingPlan
end ShotTally
