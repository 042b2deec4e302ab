/-
The moments of a run over exact numbers. Running means within a file and corrections between files come to
what two passes over all pairs of samples of all files come to, and where there is an average too, it has the
same numbers of rows and the same means.
-/
import ShotTally.Proofs.Bucket.Moments
import ShotTally.Proofs.Run.Configuration
import ShotTally.Proofs.Run.Meaning

namespace ShotTally

open MomentSums (twoPass firsts)

/-! ## Without a scene -/

namespace ReadingPlan

variable {α : Type} [Scalar α] (plan : ReadingPlan) (load : String → Outcome ShotFile) (q : Query)
    (rules : List Rule.Predicate)

/-- The buckets of both quantities of a file, if it has them; a quantity alone stands for both. -/
def bothOf (second : Option String) (name : String) : Outcome (Option (FileBuckets α × FileBuckets α)) := do
  match ← plan.bucketsOf load q rules name with
  | none => return none
  | some (first : FileBuckets α) =>
    match second with
    | none => return some (first, first)
    | some quantity => return (← plan.bucketsOf load { q with quantity := quantity } rules name).map (first, ·)

/-- The moments of a file that has both quantities. -/
def momentsOf (m : MomentQuery) (name : String) : Outcome (Option (List (MomentSums α))) := do
  (← plan.bothOf load q rules m.second name).mapM fun f => f.1.momentSums (some f.2) m.filter1 m.filter2

end ReadingPlan

namespace Run

section

variable {α : Type} [Scalar α]

/-- The moments of every bucket over all files that have the quantities. -/
def momentsOn (r : Run) (d : Disk) (offset : Option Int) (q : Query) (m : MomentQuery) :
    Outcome (List (MomentSums α)) := do
  let rules ← Rule.Predicate.compileAll q.rules
  let plan ← r.planOn d offset q.splits
  let perFile ← r.files.mapM (plan.momentsOf (r.store.load d) q rules m)
  match perFile.filterMap id with
  | [] => fail (noData q r.files)
  | first :: others => others.foldlM mergeMoments first

variable {r : Run} {d : Disk} {offset : Option Int} {q : Query} {m : MomentQuery}

theorem computes_fileMoments (plan : ReadingPlan) (q : Query) (rules : List Rule.Predicate) (m : MomentQuery)
    (name : String) :
    Job.Computes d offset (r.fileMoments plan q rules m name : Job (Option (List (MomentSums α))))
      (plan.momentsOf (r.store.load d) q rules m name) := by
  have hsums : ∀ o : Outcome (List (MomentSums α)),
      Job.Computes d offset (do return some (← Job.lift o)) (o.map some) := by
    intro o s hd ho
    exact ⟨s, by cases o <;> rfl, hd, ho, rfl⟩
  unfold fileMoments ReadingPlan.momentsOf ReadingPlan.bothOf
  rw [bind_assoc]
  refine (computes_compileFile plan q rules name).bind fun found _ => ?_
  cases found with
  | none => exact .pure _
  | some first =>
    dsimp only
    cases m.second with
    | none =>
      dsimp only
      rw [FileBuckets.momentSums_self, pure_bind, mapM_some]
      exact hsums _
    | some quantity =>
      dsimp only
      rw [bind_assoc]
      refine (computes_compileFile plan { q with quantity := quantity } rules name).bind fun found _ => ?_
      cases found with
      | none => exact .pure _
      | some second =>
        rw [pure_bind, Option.map_some, mapM_some]
        exact hsums _

/-- The moments of a run as an outcome. -/
theorem outcome_momentSums (r : Run) (q : Query) (m : MomentQuery) (s : Scene) :
    ((r.momentSums q m).run s).1 = (r.momentsOn s.disk s.memory.offset q m : Outcome (List (MomentSums α))) := by
  unfold momentSums momentsOn
  rcases hrules : Rule.Predicate.compileAll q.rules with e | rules
  · rfl
  rw [Job.run_bind_ok (x := Job.lift (.ok rules)) (s := s) rfl, ok_bind]
  obtain ⟨s', hrun, hd, -, -, -⟩ := r.run_plan q.splits (s := s) rfl rfl
  rcases hplan : r.planOn s.disk s.memory.offset q.splits with e | plan
  · rw [hplan] at hrun
    rw [Job.run_bind_error hrun]
    rfl
  rw [hplan] at hrun
  rw [Job.run_bind_ok hrun, ok_bind]
  -- reading a file depends on the disk alone, which no file changes
  obtain ⟨s'', hfiles, -, -, -⟩ := Job.Computes.mapM (fun name (_ : name ∈ r.files) =>
    computes_fileMoments (α := α) (r := r) (d := s.disk) plan q rules m name) s' hd rfl
  rcases hfound : (r.files.mapM (plan.momentsOf (r.store.load s.disk) q rules m) :
    Outcome (List (Option (List (MomentSums α)))))
    with e | perFile
  · rw [hfound] at hfiles
    rw [Job.run_bind_error hfiles]
    rfl
  rw [hfound] at hfiles
  rw [Job.run_bind_ok hfiles, ok_bind]
  cases perFile.filterMap id <;> rfl

end

end Run

/-! ## Exact moments -/

namespace ReadingPlan

variable {plan : ReadingPlan} {load : String → Outcome ShotFile} {q : Query} {rules : List Rule.Predicate}
    {m : MomentQuery}

/-- The buckets of a file hold rows, as many tables of them as there are conditions and rules. -/
theorem exists_holds {name : String} {b : FileBuckets ℚ} (hrules : Rule.Predicate.compileAll q.rules = .ok rules)
    (h : plan.bucketsOf load q rules name = .ok (some b)) :
    ∃ inner tables, b.Holds inner tables ∧ tables.length = 4 * q.rules.length := by
  obtain ⟨file, -, h⟩ := bind_eq_ok.1 h
  obtain ⟨inner, table, hb⟩ := exists_byPlace_of_sorted hrules (Outcome.within_eq_ok.1 h)
  refine ⟨inner, _, hb.holds, ?_⟩
  rw [List.length_map, length_places]
  exact volume_bucketShape q

theorem bothOf_eq_some {second : Option String} {name : String} {f : FileBuckets ℚ × FileBuckets ℚ}
    (h : plan.bothOf load q rules second name = .ok (some f)) : plan.bucketsOf load q rules name = .ok (some f.1) ∧
      ∃ quantity, plan.bucketsOf load { q with quantity := quantity } rules name = .ok (some f.2) := by
  obtain ⟨x, hx, h⟩ := bind_eq_ok.1 h
  cases x with
  | none => cases h
  | some first =>
    cases second with
    | none =>
      cases h
      exact ⟨hx, q.quantity, hx⟩
    | some quantity =>
      obtain ⟨y, hy, h⟩ := bind_eq_ok.1 h
      cases y with
      | none => cases h
      | some s =>
        cases h
        exact ⟨hx, quantity, hy⟩

/-- The moments of files that have both quantities are those of pairs of samples. -/
theorem hasMoments_of_files (hrules : Rule.Predicate.compileAll q.rules = .ok rules) {files : List String}
    {found : List (Option (FileBuckets ℚ × FileBuckets ℚ))} {perFile : List (Option (List (MomentSums ℚ)))}
    (hfound : files.mapM (plan.bothOf load q rules m.second) = .ok found)
    (hsums : found.mapM (fun x => x.mapM fun f => f.1.momentSums (some f.2) m.filter1 m.filter2) = .ok perFile) :
    List.Forall₂ (Run.HasMoments m (4 * q.rules.length)) (found.filterMap id) (perFile.filterMap id) := by
  have hpresent := mapM_eq_ok.1 (mapM_present hsums)
  -- both quantities of a file fill the same number of buckets
  have hholds : ∀ f ∈ found.filterMap id, ∃ inner tables inner' tables', f.1.Holds inner tables ∧
    f.2.Holds inner' tables' ∧
      tables.length = 4 * q.rules.length ∧ tables'.length = 4 * q.rules.length := by
    intro f hf
    obtain ⟨x, hx, rfl⟩ := List.mem_filterMap.1 hf
    obtain ⟨name, -, hname⟩ := exists_of_mem_mapM hfound hx
    obtain ⟨hfirst, quantity, hsecond⟩ := bothOf_eq_some hname
    obtain ⟨inner, tables, h1, hlen1⟩ := exists_holds hrules hfirst
    obtain ⟨inner', tables', h2, hlen2⟩ := exists_holds (q := { q with quantity := quantity }) hrules hsecond
    exact ⟨inner, tables, inner', tables', h1, h2, hlen1, hlen2⟩
  refine ((List.forall₂_and_left _ _).2 ⟨hholds, hpresent⟩).imp ?_
  rintro f sums ⟨⟨inner, tables, inner', tables', h1, h2, hlen1, hlen2⟩, hsums⟩
  obtain ⟨n, k, buckets, hpairs, rfl⟩ := h1.exists_pairs h2 (hlen1.trans hlen2.symm) hsums
  refine ⟨n, k, buckets, hpairs, ?_, rfl⟩
  rw [← hpairs.firsts.length_eq, h1.rows, List.length_map, hlen1]

end ReadingPlan

/-! ## Averages beside moments -/

/-- Moments of some buckets and an average over them: bucket by bucket the number of pairs is the weight, and the
mean of the first samples is the block of the average. -/
structure WeightedAverage.Accords (a : WeightedAverage ℚ) (sums : List (MomentSums ℚ)) : Prop where
  counts : a.weights.data = sums.map (·.count)
  means : a.average.data = sums.flatMap (·.mean1)
  blocks : ∀ sum ∈ sums, sum.mean1.length = volume a.dataShape

namespace Exact

/-- Rows that are samples themselves are counted, and have their columns, in the pairs that they make. -/
theorem column_of_samples {t : Tensor ℚ} {pairs : Pairs} (h : t.samples .identity = .ok (pairs.map Prod.fst)) :
    t.rowCount = pairs.length ∧ ∀ j < t.rowWidth, t.column j = firsts pairs j := by
  obtain ⟨rows, hrows, h⟩ := bind_eq_ok.1 h
  have hid : rows.mapM (fun row => SampleFilter.apply row .identity) = .ok (rows.map id) :=
    mapM_ok_of_mem fun _ _ => rfl
  rw [List.map_id] at hid
  obtain rfl := Except.ok.inj (hid.symm.trans h)
  obtain ⟨hcount, hcolumns⟩ := Tensor.column_of_splitRows hrows
  rw [List.length_map] at hcount
  refine ⟨hcount.symm, fun j hj => (hcolumns j hj).trans ?_⟩
  simp [firsts]

variable {bucketShape inner : List Nat} {n k : Nat}

/-- Bucket by bucket, the rows of a quantity alone are counted and have their columns in the pairs. -/
theorem column_of_pairsUp {b : FileBuckets ℚ} {buckets : List Pairs}
    (h : b.PairsUp ⟨none, .identity, .identity⟩ n k b buckets) (i : Nat) :
    (b.rows[i]?.map Tensor.rowCount).getD 0 = (buckets.getD i []).length ∧
      ∀ j < n, (b.rows[i]?.map fun t => t.column j).getD [] = firsts (buckets.getD i []) j := by
  obtain ⟨hlen, hget⟩ := List.forall₂_iff_get.1 h.firsts
  by_cases hi : i < b.rows.length
  · have hi' : i < buckets.length := hlen ▸ hi
    obtain ⟨hcount, hcolumns⟩ := column_of_samples (hget i hi hi')
    have hwidth : b.rows[i].rowWidth = n := h.widths.1 _ (List.getElem_mem hi)
    rw [List.getD_eq_getElem?_getD, List.getElem?_eq_getElem hi, List.getElem?_eq_getElem hi']
    exact ⟨hcount, fun j hj => hcolumns j (by simpa [hwidth] using hj)⟩
  · have hi' : buckets.length ≤ i := by omega
    rw [List.getD_eq_getElem?_getD, List.getElem?_eq_none (Nat.le_of_not_lt hi), List.getElem?_eq_none hi']
    exact ⟨rfl, fun j _ => rfl⟩

/-- The columns of some files are those of their pairs. -/
theorem columnOf_of_pairsUp {files : List (FileBuckets ℚ)} {pairs : List (List Pairs)}
    (h : List.Forall₂ (fun b buckets => b.PairsUp ⟨none, .identity, .identity⟩ n k b buckets) files pairs) (i : Nat) :
    rowsOf (files.map FileBuckets.rows) i = (pairsIn pairs i).length ∧
      ∀ j < n, columnOf (files.map FileBuckets.rows) i j = firsts (pairsIn pairs i) j := by
  induction h with
  | nil => exact ⟨rfl, fun j _ => rfl⟩
  | @cons b buckets files pairs hfile _ ih =>
    obtain ⟨hcount, hcolumns⟩ := column_of_pairsUp hfile i
    have hpairs : pairsIn (buckets :: pairs) i = buckets.getD i [] ++ pairsIn pairs i := List.flatMap_cons
    constructor
    · rw [hpairs, List.length_append, ← hcount, ← ih.1]
      rfl
    · intro j hj
      rw [hpairs, MomentSums.firsts_append, ← hcolumns j hj, ← ih.2 j hj]
      rfl

/-- The average over some files accords with their moments. -/
theorem accords_averageOf {files : List (FileBuckets ℚ)} {pairs : List (List Pairs)} (hne : files ≠ [])
    (hpart : ∀ b ∈ files, Part bucketShape inner b.rows) (hpos : volume bucketShape ≠ 0)
    (h : List.Forall₂ (fun b buckets => b.PairsUp ⟨none, .identity, .identity⟩ n k b buckets) files pairs) :
    (averageOf bucketShape inner (files.map FileBuckets.rows)).Accords
      (momentsOver n k (volume bucketShape) pairs) := by
  -- the samples of the moments are the rows of the average, so their widths agree
  obtain rfl : n = volume inner := by
    cases h with
    | nil => exact absurd rfl hne
    | @cons b _ _ _ hfile _ =>
      have hb := hpart b (by simp)
      obtain ⟨t, others, hrows⟩ := List.exists_cons_of_ne_nil (hb.ne_nil hpos)
      have ht : t ∈ b.rows := by simp [hrows]
      exact (hfile.widths.1 t ht).symm.trans (congrArg volume (hb.rows t ht).1)
  have hcolumns := columnOf_of_pairsUp h
  constructor
  case counts =>
    simp only [averageOf, momentsOver, List.map_map, (hcolumns _).1]
    rfl
  case means =>
    simp only [averageOf, momentsOver, List.flatMap_map, MomentSums.mean1_twoPass]
    refine List.flatMap_congr fun i _ => List.map_congr_left fun j hj => ?_
    rw [(hcolumns i).2 j (List.mem_range.1 hj)]
  case blocks =>
    intro sum hsum
    obtain ⟨i, -, rfl⟩ := List.mem_map.1 hsum
    have hshape : (averageOf bucketShape inner (files.map FileBuckets.rows)).dataShape = inner := List.drop_left
    rw [MomentSums.mean1_twoPass, hshape, List.length_map, List.length_range]

end Exact

namespace ReadingPlan

variable {plan : ReadingPlan} {load : String → Outcome ShotFile} {q : Query} {rules : List Rule.Predicate}

/-- Where the files have an average, it accords with the moments of the quantity alone. -/
theorem accords_of_totalOf {blocks : List (List String)} {a : WeightedAverage ℚ}
    {found : List (Option (FileBuckets ℚ × FileBuckets ℚ))} {n k : Nat} {pairs : List (List Pairs)}
    (hfound : blocks.flatten.mapM (plan.bothOf load q rules none) = .ok found)
    (hpairs : List.Forall₂ (fun f buckets => f.1.PairsUp ⟨none, .identity, .identity⟩ n k f.2 buckets)
      (found.filterMap id) pairs)
    (h : plan.totalOf load q rules blocks = .ok (some a)) : a.Accords (momentsOver n k (4 * q.rules.length) pairs) := by
  have hq : q.rules ≠ [] := by
    intro hq
    cases totalOf_of_nil hq h
  obtain ⟨xs, hxs, hcomes⟩ := (totalOf_eq_ok hq).1 h
  rw [flatten_partsOf] at hcomes
  obtain ⟨inner, hne, hparts, rfl⟩ := Exact.comes_some.1 hcomes
  -- the files that have the quantity have both
  have hboth : blocks.flatten.mapM (plan.bothOf load q rules none) = .ok (xs.map (Option.map fun b => (b, b))) := by
    have hname : ∀ name, (plan.bothOf load q rules none name : Outcome (Option (FileBuckets ℚ × FileBuckets ℚ))) =
        plan.bucketsOf load q rules name >>= fun x => .ok (x.map fun b => (b, b)) := by
      intro name
      refine congrArg (plan.bucketsOf load q rules name >>= ·) (funext fun x => ?_)
      cases x <;> rfl
    rw [funext hname]
    exact mapM_mapM_eq_ok.1 ⟨xs, hxs, mapM_ok_of_mem fun _ _ => rfl⟩
  obtain rfl := Except.ok.inj (hfound.symm.trans hboth)
  have hpresent : (xs.map (Option.map fun b => (b, b))).filterMap id = (xs.filterMap id).map fun b => (b, b) := by
    rw [List.filterMap_map, List.map_filterMap]
    rfl
  rw [hpresent, List.forall₂_map_left_iff] at hpairs
  rw [← volume_bucketShape]
  exact Exact.accords_averageOf (fun hnil => hne (by rw [hnil]; rfl)) (fun b hb => hparts _ (List.mem_map_of_mem hb))
    (volume_ne_zero hq) hpairs

end ReadingPlan
/-! ## The moments of a run -/

/-- Sound ground for an average that a run is asked for on a scene: whatever it recalls is right. -/
structure Ground.Backs {α : Type} [Scalar α] [Binary α] [Binary.Lawful α] (g : Ground) (r : Run) (q : Query)
    (opts : AverageOptions) (s : Scene) : Prop where
  trusted : g.Trusted α
  serves : g.Serves r
  size : g.sizes opts.blockSize
  shares : opts.useCache = true ∨ opts.makeCache = true → g.Shares r (r.averageQuestions q opts.blockSize)
  now : opts.makeCache = true → Binary.Fits s.now
  sound : g.Sound α (r.settledPlan s.memory.offset) s.disk

namespace Run

variable {r : Run} {q : Query} {m : MomentQuery} {opts : AverageOptions} {s : Scene}

/-- An average that leaves the shelf alone or is asked for on sound ground is that of the files. -/
theorem averageOn_of_backed {α : Type} [Scalar α] [Binary α] [Binary.Lawful α]
    (h : opts.withoutShelf = opts ∨ ∃ g : Ground, g.Backs (α := α) r q opts s) {a : RunAverage α}
    (ha : ((r.average q opts).run s).1 = .ok a) :
    r.averageOn s.disk s.memory.offset q opts.blockSize = .ok a.average := by
  rcases h with hopts | ⟨g, hg⟩
  · rw [← outcome_average r q opts s, hopts, ha]
    rfl
  · obtain ⟨o, s', hrun, ho, -, -⟩ := Ground.run_average hg.trusted hg.serves hg.size hg.shares hg.now hg.sound
    rw [hrun] at ha
    rw [← ho, show o = .ok a from ha]
    rfl

/-- The moments of a run are those of two passes over the pairs of samples of all files that have the quantities, in
the order of the files. -/
theorem exists_pairs_of_momentsOn {d : Disk} {offset : Option Int} {sums : List (MomentSums ℚ)}
    (h : r.momentsOn d offset q m = .ok sums) :
    ∃ rules plan found n k pairs, Rule.Predicate.compileAll q.rules = .ok rules ∧
      r.planOn d offset q.splits = .ok plan ∧ r.files.mapM (plan.bothOf (r.store.load d) q rules m.second) = .ok found ∧
      List.Forall₂ (fun f buckets => f.1.PairsUp m n k f.2 buckets ∧ buckets.length = 4 * q.rules.length)
        (found.filterMap id) pairs ∧ sums = momentsOver n k (4 * q.rules.length) pairs := by
  obtain ⟨rules, hrules, h⟩ := bind_eq_ok.1 h
  obtain ⟨plan, hplan, h⟩ := bind_eq_ok.1 h
  obtain ⟨perFile, hperFile, h⟩ := bind_eq_ok.1 h
  obtain ⟨found, hfound, hsums⟩ := mapM_mapM_eq_ok.2 hperFile
  have hall := ReadingPlan.hasMoments_of_files hrules hfound hsums
  cases hpresent : perFile.filterMap id with
  | nil =>
    rw [hpresent] at h
    cases h
  | cons first others =>
    rw [hpresent] at h hall
    obtain ⟨n, k, pairs, hpairs, hover⟩ := exists_pairs_of_merge hall h
    exact ⟨rules, plan, found, n, k, pairs, hrules, hplan, hfound, hpairs, hover⟩

/-- The moments of a run. Bucket by bucket they are the number, the sums and, by two passes, the co-moments of the
pairs that the filtered samples of both quantities make, row by row, in the files that have both, one file after
the other. Of a quantity alone and unfiltered, they accord with any average, by blocks of any size, that leaves the
shelf alone or is asked for on sound ground. -/
theorem momentSums_eq_twoPass [Binary ℚ] [Binary.Lawful ℚ] (r : Run) (q : Query) (m : MomentQuery) (s : Scene)
    {sums : List (MomentSums ℚ)} (h : ((r.momentSums q m).run s).1 = .ok sums) :
    (∃ rules plan found n k pairs, Rule.Predicate.compileAll q.rules = .ok rules ∧
      r.planOn s.disk s.memory.offset q.splits = .ok plan ∧
      r.files.mapM (plan.bothOf (r.store.load s.disk) q rules m.second) = .ok found ∧
      List.Forall₂ (fun f buckets => f.1.PairsUp m n k f.2 buckets ∧ buckets.length = 4 * q.rules.length)
        (found.filterMap id) pairs ∧ sums = momentsOver n k (4 * q.rules.length) pairs) ∧
    (m = ⟨none, .identity, .identity⟩ → ∀ (opts : AverageOptions) (a : RunAverage ℚ),
      (opts.withoutShelf = opts ∨ ∃ g : Ground, g.Backs (α := ℚ) r q opts s) →
      ((r.average q opts).run s).1 = .ok a → a.average.Accords sums) := by
  rw [outcome_momentSums] at h
  obtain ⟨rules, plan, found, n, k, pairs, hrules, hplan, hfound, hpairs, rfl⟩ := exists_pairs_of_momentsOn h
  refine ⟨⟨rules, plan, found, n, k, pairs, hrules, hplan, hfound, hpairs, rfl⟩, ?_⟩
  -- one quantity with itself: its pairs are the rows that the average counts
  rintro rfl opts a hopts ha
  have hon := averageOn_of_backed hopts ha
  have hs := positive_of_averageOn hon
  obtain ⟨-, rules', hrules', plan', hplan', htotal⟩ := (averageOn_eq_ok hs).1 hon
  obtain rfl := Except.ok.inj (hrules.symm.trans hrules')
  obtain rfl := Except.ok.inj (hplan.symm.trans hplan')
  rw [← Cache.flatten_blocksOf hs r.files] at hfound
  exact ReadingPlan.accords_of_totalOf hfound (hpairs.imp fun _ _ h => h.1) htotal

/-- The four shots twice, and between them a file with one shot that lacks the second quantity. -/
def threeFiles : Run :=
  Run.ofFiles "three" (.memory (.ofList [("a", fourShots), ("b", oneShot 5), ("c", fourShots)])) ["a", "b", "c"]

def emptyScene : Scene := ⟨.empty [], .fresh, [], ""⟩

/-- The moments with the second quantity, by condition; no shot has only one of the signals off. -/
def together : List (MomentSums ℚ) :=
  [⟨[[4]], [12], [28], 4⟩, ⟨[[0]], [0], [0], 0⟩, ⟨[[0]], [0], [0], 0⟩, ⟨[[4]], [8], [24], 4⟩]

/-- With the second quantity, the file in between is left out; of the first alone, it counts and there is an average. -/
theorem momentSums_threeFiles :
    ((threeFiles.momentSums split ⟨some "p", .identity, .rangeSums [(0, 1)]⟩).run emptyScene).1 = .ok together ∧
    (∃ n k pairs, together = momentsOver n k 4 pairs) ∧
    ∃ (sums : List (MomentSums ℚ)) (a : RunAverage ℚ),
      ((threeFiles.momentSums split ⟨none, .identity, .identity⟩).run emptyScene).1 = .ok sums ∧
      sums.map (·.count) = [4, 0, 1, 4] ∧
      ((threeFiles.average split AverageOptions.standard.withoutShelf).run emptyScene).1 = .ok a ∧
      a.average.Accords sums := by
  have htogether : ((threeFiles.momentSums split ⟨some "p", .identity, .rangeSums [(0, 1)]⟩).run emptyScene).1 =
      .ok together := by decide +kernel
  obtain ⟨sums, hsums, hcounts⟩ : ∃ sums : List (MomentSums ℚ),
      ((threeFiles.momentSums split ⟨none, .identity, .identity⟩).run emptyScene).1 = .ok sums ∧
      sums.map (·.count) = [4, 0, 1, 4] := by decide +kernel
  obtain ⟨a, ha, -⟩ : ∃ a : RunAverage ℚ,
      ((threeFiles.average split AverageOptions.standard.withoutShelf).run emptyScene).1 = .ok a ∧ True := by
    decide +kernel
  obtain ⟨⟨-, -, -, n, k, pairs, -, -, -, -, hpairs⟩, -⟩ :=
    momentSums_eq_twoPass threeFiles split _ emptyScene htogether
  obtain ⟨-, haccords⟩ := momentSums_eq_twoPass threeFiles split _ emptyScene hsums
  exact ⟨htogether, ⟨n, k, pairs, hpairs⟩, sums, a, hsums, hcounts, ha, haccords rfl _ a (.inl rfl) ha⟩

end Run
end ShotTally
