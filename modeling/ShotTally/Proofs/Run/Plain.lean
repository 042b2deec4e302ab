/-
What a run computes when nothing is recalled and nothing is kept, as outcomes without a scene: the
buckets and averages of files, the average over blocks of files, the rows over all files, and the
plan they are read with.
-/
import ShotTally.Proofs.Bucket.Sorting
import ShotTally.Proofs.Cache.Block
import ShotTally.Proofs.Run.Job
import ShotTally.Run.Average
import ShotTally.Run.Collect

namespace ShotTally

variable {α : Type} [Scalar α]

/-! ## Files and blocks -/

namespace ReadingPlan

variable (plan : ReadingPlan) (load : String → Outcome ShotFile) (q : Query) (rules : List Rule.Predicate)

/-- The buckets of a file. -/
def bucketsOf (name : String) : Outcome (Option (FileBuckets α)) := do
  let file ← load name
  (plan.sorted file name q rules).within "file" name

/-- The average of a file. -/
def averageOf (name : String) : Outcome (Option (WeightedAverage α)) := do
  match ← plan.bucketsOf load q rules name with
  | none => return none
  | some (buckets : FileBuckets α) => return some (← (do (← buckets.sums).average))

/-- The average over the files that have one. -/
def foldPresent (averages : List (Option (WeightedAverage α))) : Outcome (Option (WeightedAverage α)) :=
  WeightedAverage.fold (averages.filterMap id)

/-- The average of a block. -/
def blockAverage (files : List String) : Outcome (Option (WeightedAverage α)) :=
  files.mapM (plan.averageOf load q rules) >>= foldPresent

/-- The averages of the files, block by block. -/
def readBlocks (blocks : List (List String)) : Outcome (List (List (Option (WeightedAverage α)))) :=
  blocks.mapM fun files => files.mapM (plan.averageOf load q rules)

/-- The average over blocks; all files are read before any block is averaged. -/
def totalOf (blocks : List (List String)) : Outcome (Option (WeightedAverage α)) := do
  let fresh ← plan.readBlocks load q rules blocks
  foldPresent (← fresh.mapM foldPresent)

/-- The rows of every bucket over some files. -/
def collectionOf (files : List String) : Outcome (Option (CollectedBuckets α)) := do
  let compiled : List (Option (FileBuckets α)) ← files.mapM (plan.bucketsOf load q rules)
  match compiled.filterMap id with
  | [] => return none
  | present => return some ⟨q.bucketShape, ← Run.joinBuckets present⟩

/-! ### Only the files named are loaded -/

section

variable {plan load q rules} {load' : String → Outcome ShotFile}

theorem bucketsOf_congr {name : String} (h : load name = load' name) :
    (plan.bucketsOf load q rules name : Outcome (Option (FileBuckets α))) = plan.bucketsOf load' q rules name := by
  unfold bucketsOf
  rw [h]

theorem averageOf_congr {name : String} (h : load name = load' name) :
    (plan.averageOf load q rules name : Outcome (Option (WeightedAverage α))) = plan.averageOf load' q rules name := by
  unfold averageOf
  rw [bucketsOf_congr h]

theorem totalOf_congr {blocks : List (List String)} (h : ∀ files ∈ blocks, ∀ name ∈ files, load name = load' name) :
    (plan.totalOf load q rules blocks : Outcome (Option (WeightedAverage α))) = plan.totalOf load' q rules blocks := by
  unfold totalOf readBlocks
  rw [mapM_congr_left fun files hfiles => mapM_congr_left fun name hname => averageOf_congr (h files hfiles name hname)]

theorem collectionOf_congr {files : List String} (h : ∀ name ∈ files, load name = load' name) :
    (plan.collectionOf load q rules files : Outcome (Option (CollectedBuckets α))) =
      plan.collectionOf load' q rules files := by
  unfold collectionOf
  rw [mapM_congr_left fun name hname => bucketsOf_congr (h name hname)]

end

end ReadingPlan

/-! ## Runs -/

namespace Run

variable (r : Run) (d : Disk) (offset : Option Int)

/-- The files are read with this offset of the modulator. -/
def planWith (offset : Int) : ReadingPlan where
  aliases := r.aliases
  shotIndexDataset := r.shotIndexDataset
  sourcePeriodDataset := r.sourcePeriodDataset
  sourcePeriod := r.classifier.sourcePeriod
  sourceOffset := r.classifier.sourceOffset
  modulator := ⟨r.classifier.modulatorPeriod, offset⟩

/-- Whether the offset of the modulator matters. -/
def NeedsOffset (splits : Splits) : Prop := splits.modulator = true ∧ 0 < r.classifier.modulatorPeriod

instance (splits : Splits) : Decidable (r.NeedsOffset splits) := inferInstanceAs (Decidable (_ ∧ _))

/-- The offset without looking at any file: the configured one, else the one remembered. -/
def knownOffset : Option Int := r.classifier.modulatorOffset <|> offset

/-- The plan, if no file has to be looked at for it. -/
def settledPlan (splits : Splits) : Option ReadingPlan :=
  if r.NeedsOffset splits then (r.knownOffset offset).map r.planWith
  else some (r.planWith (r.classifier.modulatorOffset.getD 0))

/-- The plan, with the offset found from the files where it is needed and not known. -/
def planOn (splits : Splits) : Outcome ReadingPlan :=
  match r.settledPlan offset splits with
  | some plan => .ok plan
  | none => (r.detectOffsetIn d r.files).map r.planWith

/-- The average over all files, block by block. -/
def averageOfBlocks (q : Query) (blockSize : Option Nat) (rules : List Rule.Predicate) :
    Outcome (WeightedAverage α) := do
  let blocks ← Cache.planBlocks r.files blockSize
  let plan ← r.planOn d offset q.splits
  match ← plan.totalOf (r.store.load d) q rules (blocks.map (·.files)) with
  | none => fail (noData q r.files)
  | some total => return total

/-- The average over all files. -/
def averageOn (q : Query) (blockSize : Option Nat) : Outcome (WeightedAverage α) := do
  if r.files.isEmpty then fail (noData q r.files)
  let rules ← Rule.Predicate.compileAll q.rules
  r.averageOfBlocks d offset q blockSize rules

/-- The rows of every bucket over all files. -/
def collectionOn (q : Query) : Outcome (CollectedBuckets α) := do
  let rules ← Rule.Predicate.compileAll q.rules
  let plan ← r.planOn d offset q.splits
  match ← plan.collectionOf (r.store.load d) q rules r.files with
  | none => fail (noData q r.files)
  | some buckets => return buckets

variable {r d offset}

/-- The offset is looked for in these files only. -/
theorem detectOffsetIn_congr {d' : Disk} : ∀ {files : List String},
    (∀ name ∈ files, r.store.load d' name = r.store.load d name) → r.detectOffsetIn d' files = r.detectOffsetIn d files
  | [], _ => rfl
  | name :: files, h => by
    have ih := detectOffsetIn_congr fun name' hname' => h name' (List.mem_cons_of_mem name hname')
    unfold detectOffsetIn
    rw [h name List.mem_cons_self, ih]

theorem planOn_congr {d' : Disk} (h : ∀ name ∈ r.files, r.store.load d' name = r.store.load d name) (splits : Splits) :
    r.planOn d' offset splits = r.planOn d offset splits := by
  unfold planOn
  rw [detectOffsetIn_congr h]

theorem planOn_of_settled {splits : Splits} {plan : ReadingPlan} (h : r.settledPlan offset splits = some plan) :
    r.planOn d offset splits = .ok plan := by
  rw [planOn, h]

/-- There is no average over blocks of no files. -/
theorem positive_of_averageOn {q : Query} {size : Option Nat} {a : WeightedAverage α}
    (h : r.averageOn d offset q size = .ok a) : size ≠ some 0 := by
  rintro rfl
  unfold averageOn averageOfBlocks at h
  split at h
  · cases h
  · obtain ⟨rules, -, h⟩ := bind_eq_ok.1 h
    cases h

theorem averageOn_eq_ok {q : Query} {size : Option Nat} (hs : size ≠ some 0) {a : WeightedAverage α} :
    r.averageOn d offset q size = .ok a ↔
      r.files ≠ [] ∧ ∃ rules, Rule.Predicate.compileAll q.rules = .ok rules ∧
        ∃ plan, r.planOn d offset q.splits = .ok plan ∧
          plan.totalOf (r.store.load d) q rules (Cache.blocksOf size r.files) = .ok (some a) := by
  obtain ⟨blocks, hblocks, hfiles⟩ := Cache.planBlocks_eq_ok hs r.files
  unfold averageOn averageOfBlocks
  rw [hblocks]
  by_cases hempty : r.files = []
  · rw [hempty]
    exact ⟨fun h => (by cases h), fun h => absurd rfl h.1⟩
  -- past the empty list the steps follow one another, and only the last may come to nothing
  · rw [if_neg (by simpa using hempty)]
    simp only [pure_eq_ok, ok_bind, bind_eq_ok, hfiles]
    refine (and_iff_right hempty).symm.trans
        (and_congr_right fun _ => exists_congr fun rules => and_congr_right fun _ =>
      exists_congr fun plan => and_congr_right fun _ => ?_)
    constructor
    · rintro ⟨o, ho, h⟩
      cases o <;> cases h
      exact ho
    · exact fun h => ⟨some a, h, rfl⟩

/-- With the same plan an average only depends on how the files of the run are loaded. -/
theorem averageOn_congr {d' : Disk} {offset' : Option Int} {q : Query}
    (hplan : r.planOn d' offset' q.splits = r.planOn d offset q.splits)
    (hload : ∀ name ∈ r.files, r.store.load d' name = r.store.load d name) (size : Option Nat) :
    (r.averageOn d' offset' q size : Outcome (WeightedAverage α)) = r.averageOn d offset q size := by
  unfold averageOn averageOfBlocks
  rw [hplan]
  by_cases hs : size = some 0
  · rw [hs]
    rfl
  · obtain ⟨blocks, hblocks, hfiles⟩ := Cache.planBlocks_eq_ok hs r.files
    have htotal : ∀ (plan : ReadingPlan) (rules : List Rule.Predicate),
        (plan.totalOf (r.store.load d') q rules (blocks.map (·.files)) : Outcome (Option (WeightedAverage α))) =
          plan.totalOf (r.store.load d) q rules (blocks.map (·.files)) := fun plan rules =>
      ReadingPlan.totalOf_congr fun files hb name hname => hload name (Cache.subset_of_mem_blocksOf (hfiles ▸ hb) hname)
    simp only [hblocks, ok_bind, htotal]

theorem collectionOn_congr {d' : Disk} {offset' : Option Int} {q : Query}
    (hplan : r.planOn d' offset' q.splits = r.planOn d offset q.splits)
    (hload : ∀ name ∈ r.files, r.store.load d' name = r.store.load d name) :
    (r.collectionOn d' offset' q : Outcome (CollectedBuckets α)) = r.collectionOn d offset q := by
  unfold collectionOn
  simp only [hplan, ReadingPlan.collectionOf_congr hload]

theorem collectionOn_eq_ok {q : Query} {c : CollectedBuckets α} : r.collectionOn d offset q = .ok c ↔
    ∃ rules, Rule.Predicate.compileAll q.rules = .ok rules ∧ ∃ plan, r.planOn d offset q.splits = .ok plan ∧
      plan.collectionOf (r.store.load d) q rules r.files = .ok (some c) := by
  unfold collectionOn
  simp only [bind_eq_ok]
  refine exists_congr fun rules => and_congr_right fun _ => exists_congr fun plan => and_congr_right fun _ => ?_
  constructor
  · rintro ⟨o, ho, h⟩
    cases o <;> cases h
    exact ho
  · exact fun h => ⟨some c, h, rfl⟩

/-! ## Jobs of a run -/

theorem computes_compileFile (plan : ReadingPlan) (q : Query) (rules : List Rule.Predicate) (name : String) :
    Job.Computes d offset (r.compileFile plan q rules name : Job (Option (FileBuckets α)))
      (plan.bucketsOf (r.store.load d) q rules name) := by
  refine (Job.Computes.record _).bind (g := fun _ => plan.bucketsOf (r.store.load d) q rules name) fun _ _ => ?_
  refine Job.Computes.disk.bind (g := fun d => plan.bucketsOf (r.store.load d) q rules name) fun d' hd => ?_
  cases hd
  refine (Job.Computes.lift _).bind fun file _ => ?_
  rw [← ReadingPlan.outcome_compile]
  exact .noted _

/-- The average of a file, as a job. -/
theorem computes_fileAverage (plan : ReadingPlan) (q : Query) (rules : List Rule.Predicate) (name : String) :
    Job.Computes d offset (do
        match ← r.compileFile plan q rules name with
        | none => return none
        | some (buckets : FileBuckets α) => return some (← Job.lift (do (← buckets.sums).average)))
      (plan.averageOf (r.store.load d) q rules name) := by
  refine (computes_compileFile plan q rules name).bind fun buckets _ => ?_
  cases buckets with
  | none => exact .pure _
  | some buckets => exact (Job.Computes.lift _).bind fun _ _ => .pure _

/-- What is remembered of the offset stays; it may be found where nothing was remembered. -/
def Remembers (before after : Option Int) : Prop := before = none ∨ after = before

theorem Remembers.refl (offset : Option Int) : Remembers offset offset := .inr rfl

/-- A plan that was settled stays. -/
theorem settledPlan_mono {before after : Option Int} (h : Remembers before after) {splits : Splits} {plan : ReadingPlan}
    (hp : r.settledPlan before splits = some plan) : r.settledPlan after splits = some plan := by
  rcases h with rfl | rfl
  · unfold settledPlan at *
    split
    · rename_i hn
      rw [if_pos hn] at hp
      unfold knownOffset at *
      cases hc : r.classifier.modulatorOffset with
      | none => rw [hc] at hp; cases hp
      | some o => rw [hc] at hp; exact hp
    · rename_i hn
      rwa [if_neg hn] at hp
  · exact hp

/-- The offset that is not known is found from the files and remembered. -/
theorem run_modulatorOffset (s : Scene) : r.modulatorOffset.run s =
    match r.knownOffset s.memory.offset with
    | some o => (.ok o, s)
    | none => match r.detectOffsetIn s.disk r.files with
      | .ok o => (.ok o, { s with memory := { s.memory with offset := some o } })
      | .error e => (.error e, s) := by
  unfold modulatorOffset knownOffset
  cases r.classifier.modulatorOffset with
  | some o => rfl
  | none =>
    refine (Job.run_bind_ok (x := Job.memory) (s := s) rfl).trans ?_
    cases s.memory.offset with
    | some o => rfl
    | none =>
      refine (Job.run_bind_ok (x := Job.disk) (s := s) rfl).trans ?_
      cases r.detectOffsetIn s.disk r.files with
      | error e => exact Job.run_bind_error rfl
      | ok o => exact Job.run_bind_ok rfl

/-- Making the plan: the disk stays, and a plan that was made is settled from then on. -/
theorem run_plan (splits : Splits) {s : Scene} (hd : s.disk = d) (ho : s.memory.offset = offset) :
    ∃ s' : Scene, (r.plan splits).run s = (r.planOn d offset splits, s') ∧ s'.disk = d ∧
      Remembers offset s'.memory.offset ∧ s'.now = s.now ∧
      ∀ plan, r.planOn d offset splits = .ok plan → r.settledPlan s'.memory.offset splits = some plan := by
  subst hd ho
  by_cases hn : r.NeedsOffset splits
  · have hs : ∀ m, r.settledPlan m splits = (r.knownOffset m).map r.planWith := fun _ => if_pos hn
    have hrun : ∀ s' : Scene, ∀ o, r.modulatorOffset.run s = (.ok o, s') →
        (r.plan splits).run s = (.ok (r.planWith o), s') := by
      intro s' o h
      unfold Run.plan
      rw [if_pos (show splits.modulator = true ∧ 0 < r.classifier.modulatorPeriod from hn), Job.run_bind_ok h]
      rfl
    have hrun_error : ∀ e, r.modulatorOffset.run s = (.error e, s) → (r.plan splits).run s = (.error e, s) := by
      intro e h
      unfold Run.plan
      rw [if_pos (show splits.modulator = true ∧ 0 < r.classifier.modulatorPeriod from hn), Job.run_bind_error h]
    -- the offset is known, or it is looked for now; only then the memory changes
    have hm := r.run_modulatorOffset s
    unfold planOn
    rw [hs]
    cases hk : r.knownOffset s.memory.offset with
    | some o =>
      rw [hk] at hm
      refine ⟨s, hrun s o hm, rfl, .refl _, rfl, fun plan h => ?_⟩
      cases h
      rw [hs, hk]; rfl
    | none =>
      have hnone : r.classifier.modulatorOffset = none ∧ s.memory.offset = none := by
        unfold knownOffset at hk
        cases hc : r.classifier.modulatorOffset with
        | some o => rw [hc] at hk; cases hk
        | none => rw [hc] at hk; exact ⟨rfl, hk⟩
      rw [hk] at hm
      cases hd : r.detectOffsetIn s.disk r.files with
      | error e =>
        rw [hd] at hm
        exact ⟨s, hrun_error e hm, rfl, .refl _, rfl, fun plan h => by cases h⟩
      | ok o =>
        rw [hd] at hm
        refine ⟨_, hrun _ o hm, rfl, .inl hnone.2, rfl, fun plan h => ?_⟩
        cases h
        rw [hs, knownOffset, hnone.1]; rfl
  -- no split asks for the offset, so the plan takes the configured one or zero
  · have hs : r.settledPlan s.memory.offset splits =
      some (r.planWith (r.classifier.modulatorOffset.getD 0)) := if_neg hn
    refine ⟨s, ?_, rfl, .refl _, rfl, fun plan h => ?_⟩
    · rw [planOn_of_settled hs]
      unfold plan
      rw [if_neg (show ¬ (splits.modulator = true ∧ 0 < r.classifier.modulatorPeriod) from hn)]
      rfl
    · rw [planOn_of_settled hs] at h
      cases h
      exact hs

end Run
end ShotTally
