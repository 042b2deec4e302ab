/-
Slicing commutes with averaging. Where a query without slices has an average and there is an axis for each
slice, the query with the slices has one as well, with the same weights and with the slice of the average for
its average, number by number. This takes slices that do not overstep and arrays that have all the elements their
shapes call for: slices go through the rows that no bucket selects, too.
-/
import ShotTally.Proofs.Bucket.Slicing
import ShotTally.Proofs.Run.Rules
import ShotTally.Proofs.Slice.Text

namespace ShotTally

open Tensor

variable {α : Type}

/-! ## Slices of an average -/

/-- The average with its data axes sliced, those behind the axes of the buckets. -/
def WeightedAverage.sliceData (a : WeightedAverage α) (s : Slices) : Outcome (Tensor α) :=
  a.average.gatherIn .unbounded (a.bucketShape.map List.range ++ Slices.positions s.axes a.dataShape)

/-- The blocks of one average are those of the other sliced. -/
def WeightedAverage.SlicesTo (s : Slices) (rules : List (Option String)) (a a' : WeightedAverage α) : Prop :=
  ∃ inner block block', s.Lands inner ∧ a.ByPlace rules inner block ∧ a'.ByPlace rules (s.shapeOf inner) block' ∧
    ∀ p ∈ places rules, s.Cuts inner (block p).1 (block' p).1 ∧ (block' p).2 = (block p).2

namespace WeightedAverage

variable {s : Slices} {rules : List (Option String)} {a a' : WeightedAverage α}

theorem ByPlace.dataShape_eq {inner : List Nat} {block : Place → List α × α} (h : a.ByPlace rules inner block) :
    a.dataShape = inner := by
  rw [h.blocks]
  simp [dataShape, ofBlocks]

/-- Picking within every bucket. -/
theorem pick_places {inner : List Nat} {positions : List (List Nat)} {block block' : Place → List α}
    (hfit : ∀ p ∈ places rules, (block p).length = volume inner)
    (h : ∀ p ∈ places rules, pick inner positions (block p) = .ok (block' p)) :
    pick (Condition.all.length :: rules.length :: inner)
      (List.range Condition.all.length :: List.range rules.length :: positions) ((places rules).flatMap block) =
        .ok ((places rules).flatMap block') := by
  have hmem : ∀ c, ∀ rule ∈ rules, (c, rule) ∈ places rules := fun c rule hrule => mem_places.2 hrule
  have hflat : ∀ f : Place → List α, (places rules).flatMap f = Condition.all.flatMap fun c => rules.flatMap fun rule =>
      f (c, rule) := by
    intro f
    rw [places, List.flatMap_assoc]
    simp only [List.flatMap_map]
  -- a place is a condition and a rule, so the blocks of a condition lie side by side
  have hwidth : ∀ c, (rules.flatMap fun rule => block (c, rule)).length = volume (rules.length :: inner) := by
    intro c
    have hrow : ∀ rule ∈ rules, (block (c, rule)).length = volume inner := fun rule hrule => hfit _ (hmem c rule hrule)
    rw [List.length_flatMap, List.map_congr_left hrow, List.map_const', List.sum_replicate_nat, volume_cons]
  rw [hflat, hflat]
  exact pick_flatMap (fun c _ => hwidth c) fun c _ =>
    pick_flatMap (fun rule hrule => hfit _ (hmem c rule hrule)) fun rule hrule => h _ (hmem c rule hrule)

/-- The slice of an average. -/
theorem SlicesTo.sliceData_eq (h : SlicesTo s rules a a') :
    a.sliceData s = .ok a'.average ∧ a'.weights = a.weights ∧ a'.bucketShape = a.bucketShape := by
  obtain ⟨inner, block, block', hlands, ha, ha', hblock⟩ := h
  have hpick := pick_places ha.width fun p hp => (hblock p hp).1.picked
  have hweights : (places rules).map (fun p => (block' p).2) = (places rules).map fun p => (block p).2 :=
    List.map_congr_left fun p hp => (hblock p hp).2
  -- the conditions and the rules are taken in full, the axes of the data as the slices say
  have hsuits : Suits (Condition.all.length :: rules.length :: inner)
      (List.range Condition.all.length :: List.range rules.length :: Slices.positions s.axes inner) :=
    .cons (fun i hi => List.mem_range.1 hi) (.cons (fun i hi => List.mem_range.1 hi) hlands.suits)
  refine ⟨?_, ?_, ?_⟩
  · unfold sliceData
    rw [ha.dataShape_eq, ha.blocks, ha'.blocks]
    simp only [ofBlocks, List.map_cons, List.map_nil, List.cons_append, List.nil_append]
    rw [gatherIn_unbounded hsuits, List.flatMap_map, List.flatMap_map, hpick]
    simp [Slices.shapeOf, Except.map]
  · rw [ha.blocks, ha'.blocks]
    simp only [ofBlocks, List.map_map, Function.comp_def, hweights]
  · rw [ha.blocks, ha'.blocks]
    rfl

variable [Scalar α]

/-- Combining and slicing commute. -/
theorem carries_slicesTo : Carries (SlicesTo (α := α) s rules) := by
  rintro a a' b b' v ⟨inner, block, block', hlands, ha, ha', hfirst⟩ ⟨inner₂, block₂, block₂', -, hb, hb', hsecond⟩ h
  rw [ha.blocks, hb.blocks, combine_ofBlocks ha.width hb.width] at h
  obtain ⟨rfl, rfl⟩ := h
  refine ⟨_, ?_, inner, fun p => combineBlock (block p) (block₂ p), fun p => combineBlock (block' p) (block₂' p),
    hlands, ⟨rfl, fun p hp => length_combineBlock (ha.width p hp) (hb.width p hp)⟩,
    ⟨rfl, fun p hp => length_combineBlock (ha'.width p hp) (hb'.width p hp)⟩, fun p hp => ?_⟩
  · rw [ha'.blocks, hb'.blocks, combine_ofBlocks ha'.width hb'.width]
    exact ⟨rfl, rfl⟩
  · obtain ⟨hcut, hweight⟩ := hfirst p hp
    obtain ⟨hcut₂, hweight₂⟩ := hsecond p hp
    dsimp only [combineBlock]
    rw [hweight, hweight₂]
    exact ⟨hcut.zipWith _ hcut₂, rfl⟩

/-- Buckets with sliced rows have sliced averages. -/
theorem slicesTo_of_places {b b' : FileBuckets α} {inner : List Nat} {table table' : Place → List (List α)}
    (hne : rules ≠ []) (hlands : s.Lands inner)
    (hb : b.ByPlace rules inner table) (hb' : b'.ByPlace rules (s.shapeOf inner) table')
    (h : ∀ p ∈ places rules, List.Forall₂ (s.Cuts inner) (table p) (table' p)) :
    ∃ a a', (do (← b.sums).average) = .ok a ∧ (do (← b'.sums).average) = .ok a' ∧ SlicesTo s rules a a' := by
  obtain ⟨a, ha, hplaced⟩ := exists_average_byPlace hne hb
  obtain ⟨a', ha', hplaced'⟩ := exists_average_byPlace hne hb'
  refine ⟨a, a', ha, ha', inner, _, _, hlands, hplaced, hplaced', fun p hp => ⟨?_, ?_⟩⟩
  · unfold blockOf
    rw [(h p hp).length_eq]
    exact (hlands.cuts_totalRow (h p hp)).map _
  · unfold blockOf
    rw [(h p hp).length_eq]

end WeightedAverage

/-! ## Files -/

namespace ReadingPlan

open WeightedAverage (SlicesTo)

variable [Scalar α] {plan : ReadingPlan} {load : String → Outcome ShotFile} {q : Query} {preds : List Rule.Predicate}

/-- The array of a quantity in a file has all the elements its shape calls for, and words hold how many it has. -/
def Supplied (load : String → Outcome ShotFile) (path name : String) : Prop :=
  ∀ file, load name = .ok file → ∀ array, file.dataset? path = some (.numeric array) →
    array.Readable ∧ array.data.length < Text.nat64End

/-- The average of a file is sliced when its rows are. -/
theorem averageOf_sliced (hpreds : Rule.Predicate.compileAll q.rules = .ok preds) {s : Slices} {name : String}
    (hsupplied : Supplied load (plan.aliases.resolve q.quantity) name) {o : Option (WeightedAverage α)}
    (h : plan.averageOf load { q with slices := .none } preds name = .ok o)
    (hle : ∀ a, o = some a → s.axes.length ≤ a.dataShape.length ∧ s.Lands a.dataShape) :
    ∃ o', plan.averageOf load { q with slices := s } preds name = .ok o' ∧ Option.Rel (SlicesTo s q.rules) o o' := by
  have hnil : ∀ hq : q.rules = [], o = none := fun hq => averageOf_of_nil (q := { q with slices := .none }) hq h
  obtain ⟨x, hx, h⟩ := bind_eq_ok.1 h
  obtain ⟨file, hload, hsorted⟩ := bind_eq_ok.1 hx
  have hsorted := Outcome.within_eq_ok.1 hsorted
  have hread : ∀ {y : Option (FileBuckets α)}, plan.sorted file name { q with slices := s } preds = .ok y →
      plan.bucketsOf load { q with slices := s } preds name = .ok y := fun hy =>
    bind_eq_ok.2 ⟨file, hload, Outcome.within_eq_ok.2 hy⟩
  cases x with
  | none =>
    cases h
    exact ⟨none, bind_eq_ok.2 ⟨none, hread (sorted_none_sliced hsorted), rfl⟩, .none⟩
  | some b =>
    obtain ⟨a, ha, h⟩ := bind_eq_ok.1 h
    cases h
    have hne : q.rules ≠ [] := fun hq => by cases hnil hq
    -- the file sorted with and without the slices: the same places, each row cut
    obtain ⟨inner, table, hplace, hslices⟩ := sorted_sliced hpreds (hsupplied file hload) hsorted
    obtain ⟨a₀, ha₀, hplaced⟩ := WeightedAverage.exists_average_byPlace hne hplace
    obtain rfl : a = a₀ := Except.ok.inj (ha.symm.trans ha₀)
    obtain ⟨hle, hlands⟩ := hplaced.dataShape_eq ▸ hle a rfl
    obtain ⟨b', table', hb', hplace', hcuts⟩ := hslices s hle hlands
    obtain ⟨a₁, a', ha₁, ha', hto⟩ := WeightedAverage.slicesTo_of_places hne hlands hplace hplace' hcuts
    obtain rfl : a = a₁ := Except.ok.inj (ha.symm.trans ha₁)
    exact ⟨some a', bind_eq_ok.2 ⟨some b', hread hb', bind_eq_ok.2 ⟨a', ha', rfl⟩⟩, .some hto⟩

end ReadingPlan

/-! ## Runs -/

namespace Run

open ReadingPlan (Supplied)

variable [Scalar α]

/-- The average of a query with slices. -/
theorem averageOn_sliced {r : Run} {d : Disk} {offset : Option Int} {q : Query} {size : Option Nat} {s : Slices}
    (hsupplied : ∀ name ∈ r.files, Supplied (r.store.load d) (r.aliases.resolve q.quantity) name)
    {a : WeightedAverage α}
    (h : r.averageOn d offset { q with slices := .none } size = .ok a) (hle : s.axes.length ≤ a.dataShape.length)
    (hlands : s.Lands a.dataShape) :
    ∃ a', r.averageOn d offset { q with slices := s } size = .ok a' ∧ a.SlicesTo s q.rules a' := by
  have hs := positive_of_averageOn h
  obtain ⟨hfiles, preds, hpreds, plan, hplan, htotal⟩ := (averageOn_eq_ok hs).1 h
  have haliases : plan.aliases = r.aliases := by
    obtain ⟨o, rfl⟩ := exists_planWith hplan
    rfl
  -- every file has the shape of the total, so what lands there lands in each
  have hfile : ∀ name ∈ (Cache.blocksOf size r.files).flatten, ∀ o : Option (WeightedAverage α),
      plan.averageOf (r.store.load d) { q with slices := .none } preds name = .ok o →
      ∃ o', plan.averageOf (r.store.load d) { q with slices := s } preds name = .ok o' ∧
        Option.Rel (WeightedAverage.SlicesTo s q.rules) o o' := by
    intro name hname o ho
    have hmem : name ∈ r.files := by rwa [Cache.flatten_blocksOf hs] at hname
    refine ReadingPlan.averageOf_sliced hpreds (haliases ▸ hsupplied name hmem) ho ?_
    rintro x rfl
    rw [(ReadingPlan.sameShape_of_totalOf htotal hname ho).dataShape_eq]
    exact ⟨hle, hlands⟩
  obtain ⟨o', ho', hrel⟩ := ReadingPlan.totalOf_carried WeightedAverage.carries_slicesTo hfile htotal
  cases hrel with
  | @some _ a' hto => exact ⟨a', (averageOn_eq_ok hs).2 ⟨hfiles, preds, hpreds, plan, hplan, ho'⟩, hto⟩

variable [Binary α] [Binary.Lawful α]

/-- Slicing commutes with averaging. With the shelf left alone and whatever the blocks, where a query without slices has
an average, the query with slices for some of its data axes has one, if none of them oversteps: the weights are the
same, and the average is the slice of the average, number by number. -/
theorem average_sliced (r : Run) (q : Query) (opts : AverageOptions) (scene : Scene) (s : Slices)
    (hsupplied : ∀ name ∈ r.files, Supplied (r.store.load scene.disk) (r.aliases.resolve q.quantity) name)
    {a : RunAverage α} (ha : ((r.average { q with slices := .none } opts.withoutShelf).run scene).1 = .ok a)
    (hle : s.axes.length ≤ a.average.dataShape.length) (hs : ∀ slice ∈ s.axes, slice.Proper)
    (haxes : ∀ n ∈ a.average.dataShape, (n : Int) < Text.int64End)
    (hstays : ∀ p ∈ s.axes.zip a.average.dataShape, ¬ p.1.Oversteps p.2) :
    ∃ a' : RunAverage α, ((r.average { q with slices := s } opts.withoutShelf).run scene).1 = .ok a' ∧
      a.average.sliceData s = .ok a'.average.average ∧ a'.average.weights = a.average.weights ∧
      a'.average.bucketShape = a.average.bucketShape := by
  have hon : r.averageOn scene.disk scene.memory.offset { q with slices := .none } opts.blockSize = .ok a.average := by
    rw [← outcome_average r _ opts scene, ha]
    rfl
  obtain ⟨v, hv, hto⟩ := averageOn_sliced hsupplied hon hle ((Slices.lands_iff hs haxes).2 hstays)
  obtain ⟨a', ha', rfl⟩ := map_eq_ok.1 ((outcome_average r _ opts scene).trans hv)
  exact ⟨a', ha', hto.sliceData_eq⟩

theorem supplied_of_load {load : String → Outcome ShotFile} {path name : String} {file : ShotFile}
    {array : Tensor Double} (hload : load name = .ok file) (harray : file.dataset? path = some (.numeric array))
    (hlen : volume array.shape ≤ array.data.length) (hsize : array.data.length < Text.nat64End) :
    Supplied load path name := by
  intro file' hload' array' harray'
  obtain rfl := Except.ok.inj (hload.symm.trans hload')
  obtain rfl := Dataset.numeric.inj (Option.some.inj (harray.symm.trans harray'))
  exact ⟨readable_iff.2 hlen, hsize⟩

/-- Two shots with a spectrum of three channels each. -/
def pairOfSpectra : ShotFile :=
  .ofList [("bunches", readingsOf [0, 1]), ("counter", readingsOf [1, 2]), ("Background_Period", readingsOf [2]),
    ("slu", readingsOf [0, 1]), ("q", .numeric ⟨[2, 3], [1, 2, 3, 4, 5, 6].map Double.ofNat⟩)]

/-- Four shots with one spectrum for all of them. -/
def sharedSpectrum : ShotFile :=
  .ofList [("bunches", readingsOf [0, 1, 2, 3]), ("counter", readingsOf [1, 2, 3, 4]),
    ("Background_Period", readingsOf [2]),
    ("slu", readingsOf [0, 1, 0, 1]), ("q", .numeric ⟨[3], [8, 9, 10].map Double.ofNat⟩)]

/-- A run over a file with a spectrum for each shot and one with a single spectrum. -/
def spectraRun : Run := .ofFiles "spectra" (.memory (.ofList [("a", pairOfSpectra), ("b", sharedSpectrum)])) ["a", "b"]

/-- The spectra of all shots and those with a high counter, by condition. -/
def bySpectrum : Query := ⟨"q", [none, some "counter>1"], .both, .none⟩

/-- Every other channel from the last one on. -/
def backwards : Slices := ⟨[⟨none, none, -2⟩]⟩

theorem average_spectra_sliced : ∃ a a' : RunAverage Double,
    ((spectraRun.average bySpectrum AverageOptions.standard.withoutShelf).run ⟨.empty [], .fresh, [], ""⟩).1 = .ok a ∧
      a.average.average.data =
        [6, 7, 8, 6, 7, 8, 0, 0, 0, 0, 0, 0, 0, 0, 0, 0, 0, 0, 1, 2, 3, 0, 0, 0].map Double.ofNat ∧
      ((spectraRun.average { bySpectrum with slices := backwards } AverageOptions.standard.withoutShelf).run
        ⟨.empty [], .fresh, [], ""⟩).1 = .ok a' ∧
      a.average.sliceData backwards = .ok a'.average.average ∧ a'.average.weights = a.average.weights ∧
      a'.average.bucketShape = a.average.bucketShape := by
  have hsupplied : ∀ name ∈ spectraRun.files,
      Supplied (spectraRun.store.load (.empty [])) (spectraRun.aliases.resolve bySpectrum.quantity) name := by
    intro name hname
    rcases List.mem_pair.1 hname with rfl | rfl
    · have harray : pairOfSpectra.dataset? (spectraRun.aliases.resolve bySpectrum.quantity) =
          some (.numeric ⟨[2, 3], [1, 2, 3, 4, 5, 6].map Double.ofNat⟩) := by decide +kernel
      exact supplied_of_load (by decide +kernel) harray (by decide) (by decide)
    · have harray : sharedSpectrum.dataset? (spectraRun.aliases.resolve bySpectrum.quantity) =
          some (.numeric ⟨[3], [8, 9, 10].map Double.ofNat⟩) := by decide +kernel
      exact supplied_of_load (by decide +kernel) harray (by decide) (by decide)
  obtain ⟨a, ha, hdata, hdims⟩ : ∃ a : RunAverage Double,
      ((spectraRun.average bySpectrum AverageOptions.standard.withoutShelf).run ⟨.empty [], .fresh, [], ""⟩).1 = .ok a ∧
      a.average.average.data =
        [6, 7, 8, 6, 7, 8, 0, 0, 0, 0, 0, 0, 0, 0, 0, 0, 0, 0, 1, 2, 3, 0, 0, 0].map Double.ofNat ∧
      a.average.dataShape = [3] := by decide +kernel
  have hparse : Slices.parse ["::-2"] = .ok backwards := by decide +kernel
  obtain ⟨a', ha', hslice, hweights, hshape⟩ := average_sliced spectraRun bySpectrum AverageOptions.standard
    ⟨.empty [], .fresh, [], ""⟩ backwards hsupplied ha
      (by rw [hdims]; decide) (Slices.proper_of_parse hparse) (by rw [hdims]; decide)
    (by rw [hdims]; decide +kernel)
  exact ⟨a, a', ha, hdata, ha', hslice, hweights, hshape⟩

/-! ## Arrays that are too short -/

/-- Two shots, and a reading for the first of them only. -/
def cutShort : ShotFile :=
  .ofList [("bunches", readingsOf [0, 1]), ("counter", readingsOf [1, 2]), ("Background_Period", readingsOf [2]),
    ("q", .numeric ⟨[2, 1], [Double.ofNat 1]⟩)]

/-- The first shot. -/
def firstShot : Query := ⟨"q", [some "counter<2"], .none, .none⟩

/-- The disk with the bytes of this file, which are read back. -/
def filedShort : Scene :=
  ⟨((Disk.empty []).put ["data"] .folder).put ["data", "a"] (.file cutShort.toBytes), .fresh, [], ""⟩

/-- The average of the shots that have a reading does not need the others, but slicing does. -/
theorem average_not_sliced : ∃ a : RunAverage Double,
    (((inFolder "a").average firstShot AverageOptions.standard.withoutShelf).run filedShort).1 = .ok a ∧
      a.average.dataShape = [1] ∧
      (((inFolder "a").average { firstShot with slices := ⟨[.full]⟩ } AverageOptions.standard.withoutShelf).run
        filedShort).1 = (.error .outOfRange : Outcome (RunAverage Double)) := by decide +kernel

end Run
end ShotTally
