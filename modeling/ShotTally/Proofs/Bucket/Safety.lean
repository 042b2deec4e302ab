/-
Sorting a file into buckets never runs into a fault of its own. The checks on the way are on lengths and
shapes that earlier steps have settled: rows fit their shape, slices stay on their axes, every mask has a flag
for each row. So a file with well-formed arrays is skipped, or sorted into buckets that can be averaged and
have moments, or refused for what is missing in it or does not fit the query.
-/
import ShotTally.Proofs.Bucket.Contents
import ShotTally.Proofs.Rule.Spanning
import ShotTally.Proofs.Slice.Text
import ShotTally.Proofs.Statistics.Tables

namespace ShotTally

open Tensor

variable {α : Type} [Scalar α]

/-! ## Moments of tables -/

namespace RunningMoments

/-- The lengths of the two samples of a pair. -/
def Takes (m : RunningMoments α) (length1 length2 : Nat) : Prop := m.meanX.length = length1 ∧ m.meanY.length = length2

theorem takes_start (length1 length2 : Nat) : (start length1 length2 : RunningMoments α).Takes length1 length2 := by
  simp [Takes, start, zeroVector]

/-- A pair of samples of the right lengths is taken, and the next one has to have these lengths too. -/
theorem Takes.push {m : RunningMoments α} {x y : List α} (h : m.Takes x.length y.length) :
    ∃ m', m.push x y = .ok m' ∧ m'.Takes x.length y.length := by
  obtain ⟨hx, hy⟩ := h
  refine ⟨_, if_neg (by simp [hx, hy]), ?_⟩
  simp [Takes, advance, hx, hy]

theorem Takes.foldlM_push {length1 length2 : Nat} : ∀ {pairs : List (List α × List α)} {m : RunningMoments α},
    m.Takes length1 length2 → (∀ p ∈ pairs, p.1.length = length1 ∧ p.2.length = length2) →
    ∃ m', pairs.foldlM (fun m p => RunningMoments.push m p.1 p.2) m = .ok m'
  | [], m, _, _ => ⟨m, rfl⟩
  | (x, y) :: pairs, m, h, hpairs => by
    obtain ⟨rfl, rfl⟩ := hpairs (x, y) (by simp)
    obtain ⟨m', hm', htakes⟩ := h.push
    have hrest : ∀ p ∈ pairs, p.1.length = x.length ∧ p.2.length = y.length := fun p hp =>
      hpairs p (List.mem_cons_of_mem _ hp)
    obtain ⟨m'', hm''⟩ := htakes.foldlM_push hrest
    exact ⟨m'', by rw [List.foldlM_cons, hm', ok_bind, hm'']⟩

end RunningMoments

/-- The rows of an array, each paired with itself, have moments. -/
theorem MomentSums.exists_accumulate {width : Nat} {table : List (List α)} (h : Fits [width] table) (weight : α) :
    ∃ sums, MomentSums.accumulate (ofRows [width] table) none .identity .identity weight = .ok sums := by
  have hpairs : ∀ p ∈ table.zip table, p.1.length = width ∧ p.2.length = width := by
    intro p hp
    have hwidth := fun row hrow => (h row hrow).trans (Nat.mul_one width)
    exact ⟨hwidth _ (List.of_mem_zip hp).1, hwidth _ (List.of_mem_zip hp).2⟩
  have htakes := RunningMoments.takes_start (α := α) width width
  obtain ⟨m, hm⟩ := htakes.foldlM_push hpairs
  refine ⟨m.finish weight, ?_⟩
  unfold MomentSums.accumulate
  simp only [Option.getD_none, ne_eq, not_true_eq_false, if_false, h.rows_ofRows, ok_bind, SampleFilter.apply,
    SampleFilter.outputLength]
  have hw : (ofRows [width] table).rowWidth = width := Nat.mul_one width
  rw [hw]
  exact bind_eq_ok.2 ⟨m, hm, rfl⟩

namespace FileBuckets

variable {b : FileBuckets α} {inner : List Nat} {tables : List (List (List α))}

/-- Without a second quantity the rows of each bucket are paired with themselves. -/
theorem momentSums_none (b : FileBuckets α) (filter1 filter2 : SampleFilter) :
    b.momentSums none filter1 filter2 = b.rows.mapM fun rows => (do
      let first ← flattened rows
      MomentSums.accumulate first none filter1 filter2 (Scalar.ofNat 1)) := by
  unfold momentSums
  dsimp only
  rw [← List.map_prod_left_eq_zip, List.mapM_map]
  rfl

/-- Buckets that hold rows have an average and moments. -/
theorem Holds.exists_results (h : b.Holds inner tables) (hne : tables ≠ []) : ∃ sums average moments,
    b.sums = .ok sums ∧ sums.average = .ok average ∧ b.momentSums none .identity .identity = .ok moments := by
  obtain ⟨sums, hsums, haverage⟩ := bind_eq_ok.1 (h.average_eq hne)
  have hmoments : ∀ rows ∈ b.rows, ∃ m, (do
      let first ← flattened rows
      MomentSums.accumulate first none .identity .identity (Scalar.ofNat 1)) = .ok m := by
    intro rows hrows
    rw [h.rows] at hrows
    obtain ⟨table, htable, rfl⟩ := List.mem_map.1 hrows
    obtain ⟨m, hm⟩ := MomentSums.exists_accumulate (h.fits table htable).flat (Scalar.ofNat 1)
    exact ⟨m, bind_eq_ok.2 ⟨_, (h.fits table htable).reshape_ofRows, hm⟩⟩
  obtain ⟨moments, hmoments⟩ := exists_mapM hmoments
  exact ⟨sums, _, moments, hsums, haverage, (momentSums_none b _ _).trans hmoments⟩

end FileBuckets

/-! ## What sorting can end with -/

/-- The families and codes of the faults of a file. -/
def ReadingPlan.fileFaults : List (Family × String) :=
  [(.store, "missing_shot_index"), (.compile, "quantity_not_numeric"), (.compile, "slice_axes"),
    (.store, "missing_dataset"),
    (.rule, "keyword_shape"), (.rule, "text_not_numeric")]

namespace ReadingPlan

variable {plan : ReadingPlan} {file : ShotFile} {name : String} {q : Query} {rules : List Rule.Predicate}

/-- Selections by which so many rows can be sorted. -/
def Selections.Suits (s : Selections) (rules rows : Nat) : Prop :=
  ∃ conditionMask masks, s = ⟨Condition.all.map conditionMask, masks⟩ ∧ masks.length = rules ∧
    (∀ c, (conditionMask c).length = rows) ∧ ∀ mask ∈ masks, mask.length = rows

omit [Scalar α] in
/-- Rows are sorted into tables of the same shape by selections that suit them. -/
theorem exists_bucketRows {inner : List Nat} {rows : List (List α)} {s : Selections} {count : Nat} (h : Fits inner rows)
    (hs : s.Suits count rows.length) : ∃ tables : List (List (List α)),
      bucketRows s (ofRows inner rows) = .ok (tables.map (ofRows inner)) ∧
      (∀ table ∈ tables, Fits inner table) ∧ tables.length = Condition.all.length * count := by
  obtain ⟨conditionMask, masks, rfl, rfl, hc, hm⟩ := hs
  refine ⟨Condition.all.flatMap fun c => masks.map fun mask =>
    chosen ((conditionMask c).zipWith (· && ·) mask) rows, ?_, ?_, ?_⟩
  · rw [bucketRows_ofRows h hc hm, List.map_flatMap]
    simp only [List.map_map, Function.comp_def]
  · intro table htable
    obtain ⟨c, -, htable⟩ := List.mem_flatMap.1 htable
    obtain ⟨mask, -, rfl⟩ := List.mem_map.1 htable
    exact h.chosen _
  · rw [length_flatMap_const fun c _ => List.length_map _]

theorem ends_shotIndices (file : ShotFile) (dataset : String) :
    Ends (file.shotIndices dataset) (fun _ => True) (Failure.Among fileFaults) := by
  unfold ShotFile.shotIndices
  split
  · exact ends_ok.2 trivial
  · have hcode : (Family.store, "missing_shot_index") ∈ fileFaults := by decide
    exact ends_error.2 hcode

theorem ends_quantityOf (hfile : file.WellFormed) (quantity : String) : Ends (plan.quantityOf file name quantity)
    (fun found => ∀ array, found = some array → array.WellFormed) (Failure.Among fileFaults) := by
  unfold quantityOf
  split
  · refine ends_ok.2 ?_
    rintro array ⟨⟩
  · have hcode : (Family.compile, "quantity_not_numeric") ∈ fileFaults := by decide
    exact ends_error.2 hcode
  · refine ends_ok.2 ?_
    rintro array ⟨⟩
    exact hfile.numeric ‹_›

/-- The rules of a query select among the shots of a file, or ask for what the file does not have. -/
theorem ends_shotSelections (hcompile : Rule.Predicate.compileAll q.rules = .ok rules) (shots : List Int) :
    Ends (plan.shotSelections file q.splits rules shots) (fun s => s.Suits rules.length shots.length)
      (Failure.Among fileFaults) := by
  have hsupplies : (file.accessor plan.aliases shots.length).Supplies shots.length fileFaults :=
    file.supplies_accessor _ _ (by decide) (by decide)
  have hmask : ∀ rule ∈ rules, Ends (rule.mask (file.accessor plan.aliases shots.length) shots.length)
      (fun mask => mask.length = shots.length) (Failure.Among fileFaults) := by
    intro rule hrule
    obtain ⟨text, -, htext⟩ := exists_of_mem_mapM hcompile hrule
    have hrule' : Rule.Predicate.compile text = .ok rule := by
      cases hc : Rule.Predicate.compile text with
      | ok p => simpa [hc, Except.mapError] using htext
      | error e => simp [hc, Except.mapError] at htext
    exact Rule.Predicate.ends_mask hsupplies (by decide) hrule'
  refine (Ends.mapM hmask).bind fun masks _ hmasks => ?_
  exact ends_ok.2 ⟨_, masks, rfl, hmasks.1, length_maskOf _ _ _ _, hmasks.2⟩

theorem suits_selectSingle (rules : List Rule.Predicate) : (selectSingle rules).Suits rules.length 1 :=
  ⟨_, _, selectSingle_eq rules, by simp, by simp, by simp⟩

/-- Rows that are sliced and sorted by selections that suit them end up in buckets. -/
theorem ends_sliced {inner : List Nat} {samples : List (List Double)} {selections : Outcome Selections}
    (hlands : q.slices.Lands inner) (hfit : Fits inner samples) (hsize : samples.flatten.length < Text.nat64End)
    (hlen : rules.length = q.rules.length)
    (hselections : Ends selections (fun s => s.Suits rules.length samples.length) (Failure.Among fileFaults)) :
    Ends (do
      let data ← ((q.slices.apply (ofRows inner samples)).within "file" name).within "quantity" q.quantity
      let selections ← selections
      let rows ← bucketRows selections (data.map (Scalar.ofDouble (α := α)))
      return some (⟨name, q.bucketShape, rows⟩ : FileBuckets α))
      (fun found => ∀ b, found = some b → ∃ inner' tables, b.Holds inner' tables ∧
        tables.length = Condition.all.length * q.rules.length)
      (Failure.Among fileFaults) := by
  -- the slices apply, or there are more of them than axes
  have hslice : Ends (q.slices.apply (ofRows inner samples)) (fun data => ∃ inner' sliced, data = ofRows inner' sliced ∧
      Fits inner' sliced ∧ sliced.length = samples.length) (Failure.Among fileFaults) := by
    by_cases hle : q.slices.axes.length ≤ inner.length
    · obtain ⟨sliced, hto, hfit', happly⟩ := Slices.apply_ofRows hle hlands hfit hsize
      rw [happly]
      exact ends_ok.2 ⟨_, sliced, rfl, hfit', hto.length_eq.symm⟩
    · obtain ⟨r, hr, hfamily, hcode⟩ := Slices.apply_ofRows_of_lt (Nat.lt_of_not_le hle) samples
      have hamong : (r.family, r.code) ∈ fileFaults := by
        rw [hfamily, hcode]
        decide
      rw [hr]
      exact ends_error.2 hamong
  refine ((hslice.within _ _).within _ _).bind fun data _ hdata => hselections.bind fun s _ hs => ?_
  obtain ⟨inner', sliced, rfl, hfit', hcount⟩ := hdata
  have hsuits : s.Suits rules.length (sliced.map (List.map (Scalar.ofDouble (α := α)))).length := by
    rwa [List.length_map, hcount]
  obtain ⟨tables, htables, hfits, hlength⟩ := exists_bucketRows (hfit'.map _) hsuits
  rw [map_ofRows, htables, ok_bind]
  refine ends_ok.2 ?_
  rintro b ⟨⟩
  rw [hlen] at hlength
  refine ⟨inner', tables, ⟨rfl, hfits, ?_⟩, hlength⟩
  rw [hlength]
  simp [Query.bucketShape, volume]

omit [Scalar α] in
/-- Slices that keep to words, and overstep on no axis of the rows, stay on these axes. -/
theorem lands_rowShape {array : Tensor Double} {shots : Nat} (hslices : ∀ slice ∈ q.slices.axes, slice.Proper)
    (haxes : ∀ n ∈ array.shape, (n : Int) < Text.int64End)
    (hstays : ∀ p ∈ q.slices.axes.zip (array.rowShape shots), ¬ p.1.Oversteps p.2) :
    q.slices.Lands (array.rowShape shots) := by
  refine (Slices.lands_iff hslices fun n hn => ?_).2 hstays
  have hsample : ∀ shape : List Nat, (∀ n ∈ shape, (n : Int) < Text.int64End) →
      ∀ n ∈ sampleShape shape, (n : Int) < Text.int64End := by
    intro shape hshape
    unfold sampleShape
    split
    · decide
    · exact hshape
  rw [rowShape] at hn
  split at hn
  · exact hsample _ (fun n hn => haxes n (List.mem_of_mem_tail hn)) n hn
  · exact hsample _ haxes n hn

/-- A shot with a pair of readings. -/
def pairOfReadings : ShotFile :=
  .ofList [("bunches", .numeric ⟨[1], [.zero]⟩), ("q", .numeric ⟨[1, 2], [.ofNat 5, .ofNat 6]⟩)]

end ReadingPlan
end ShotTally
