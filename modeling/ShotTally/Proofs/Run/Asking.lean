/-
Calls that may be asked for: where what the shelf holds for a query is right, an average or a collection
has the outcome that it has without the shelf, also when there is none.
-/
import ShotTally.Proofs.Run.Accounting
import ShotTally.Proofs.Run.Configuration

namespace ShotTally

open Binary (Fits)

namespace Run

variable {α : Type} [Scalar α] {r : Run} {q : Query} {size : Option Nat} {s s₂ : Scene}

/-- What the files come to with the plan of the run. -/
def ComesTo (r : Run) (s : Scene) (q : Query) (size : Option Nat) (files : List String)
    (v : WeightedAverage α) : Prop :=
  ∃ rules plan, Rule.Predicate.compileAll q.rules = .ok rules ∧ r.planOn s.disk s.memory.offset q.splits = .ok plan ∧
    plan.totalOf (r.store.load s.disk) q rules (Cache.blocksOf size files) = .ok (some v)

theorem ComesTo.unique {files : List String} {v w : WeightedAverage α} (hv : r.ComesTo s q size files v)
    (hw : r.ComesTo s q size files w) : v = w := by
  obtain ⟨rules, plan, hrules, hplan, hv⟩ := hv
  obtain ⟨rules', plan', hrules', hplan', hw⟩ := hw
  rw [hrules] at hrules'
  rw [hplan] at hplan'
  cases hrules'
  cases hplan'
  exact Option.some.inj (Except.ok.inj (hv.symm.trans hw))

/-! ## Questions and their answers on the shelf -/

variable [Binary α]

/-- In this scene a run may ask for the averages of a query: different lists of files have different keys, the files
and what they come to fit the form they are written in, and what the shelf holds for the query is right. -/
structure AsksAverage (α : Type) [Scalar α] [Binary α] [Binary.Lawful α] (r : Run) (good : Disk → Prop) (q : Query)
    (size : Option Nat) (s : Scene) : Prop where
  good : good s.disk
  now : Fits s.now
  positive : size ≠ some 0
  apart : r.KeysApart q (r.files :: Cache.blocksOf size r.files)
  files : ∀ files ∈ r.files :: Cache.blocksOf size r.files, Fits files
  fits : ∀ files ∈ r.files :: Cache.blocksOf size r.files, ∀ v : WeightedAverage α, r.ComesTo s q size files v → Fits v
  right : ∀ files ∈ r.files :: Cache.blocksOf size r.files, ∀ v : WeightedAverage α,
    r.held s.disk .average (r.keyFor .average files q) = some v → r.ComesTo s q size files v

/-- In this scene a run may ask for the rows of a query. -/
structure AsksCollection (α : Type) [Scalar α] [Binary α] [Binary.Lawful α] (r : Run) (good : Disk → Prop) (q : Query)
    (s : Scene) : Prop where
  good : good s.disk
  now : Fits s.now
  files : Fits r.files
  fits : ∀ c : CollectedBuckets α, r.collectionOn s.disk s.memory.offset q = .ok c → Fits c
  right : ∀ c : CollectedBuckets α, r.held s.disk .collect (r.keyFor .collect r.files q) = some c →
    r.collectionOn s.disk s.memory.offset q = .ok c

omit [Scalar α] [Binary α] in
theorem subset_of_asked {files : List String} (h : files ∈ r.files :: Cache.blocksOf size r.files) :
    files ⊆ r.files := by
  rcases List.mem_cons.1 h with rfl | h
  · exact List.Subset.refl _
  · exact Cache.subset_of_mem_blocksOf h

omit [Scalar α] [Binary α] in
/-- A list of files that is asked for. -/
theorem mem_averageQuestions {x : Question} : x ∈ r.averageQuestions q size ↔
    ∃ files ∈ r.files :: Cache.blocksOf size r.files, x = ⟨.average, files, q⟩ := by
  unfold averageQuestions
  rw [← List.map_cons (f := fun files => (⟨.average, files, q⟩ : Question)), List.mem_map]
  exact exists_congr fun files => and_congr_right fun _ => eq_comm

end Run

namespace Ground

variable {α : Type} [Scalar α] [Binary α] [Binary.Lawful α] {r : Run} {shelf : Shelf} {good : Disk → Prop} {q : Query}
  {size : Option Nat} {s : Scene}

/-- The ground of a run that asks some questions of a query in a scene. -/
def asking (r : Run) (good : Disk → Prop) (q : Query) (size : Option Nat) (questions : List Question)
    (s : Scene) : Ground :=
  ⟨r.shelf, r.store, r.files, r.store.load s.disk, good, (· ∈ questions), (· = size),
    fun plan => r.planOn s.disk s.memory.offset q.splits = .ok plan⟩

/-- The plan of the query counts as settled. -/
def planned (r : Run) (q : Query) (s : Scene) : Splits → Option ReadingPlan :=
  fun _ => (r.planOn s.disk s.memory.offset q.splits).toOption

omit [Scalar α] [Binary α] [Binary.Lawful α] in
theorem planned_eq_some {splits : Splits} {plan : ReadingPlan} :
    planned r q s splits = some plan ↔ r.planOn s.disk s.memory.offset q.splits = .ok plan := by
  unfold planned
  cases r.planOn s.disk s.memory.offset q.splits <;> simp [Except.toOption]

/-- A run that asks for the averages of a query is on trusted ground. -/
theorem trusted_average (hshelf : r.shelf = some shelf) (hd : shelf.Dependable r.store r.files good)
    (ha : r.AsksAverage α good q size s) : (asking r good q size (r.averageQuestions q size) s).Trusted α where
  dependable s' hs' := by
    obtain rfl : shelf = s' := Option.some.inj (hshelf.symm.trans hs')
    exact hd
  separate x y hx hy hkey := by
    obtain ⟨files, hfiles, rfl⟩ := Run.mem_averageQuestions.1 hx
    obtain ⟨files', hfiles', rfl⟩ := Run.mem_averageQuestions.1 hy
    rw [ha.apart _ hfiles _ hfiles' hkey]
  filesHeld x hx := by
    obtain ⟨files, hfiles, rfl⟩ := Run.mem_averageQuestions.1 hx
    exact Run.subset_of_asked hfiles
  filesFit x hx := by
    obtain ⟨files, hfiles, rfl⟩ := Run.mem_averageQuestions.1 hx
    exact ha.files files hfiles
  averagesFit files q' plan v hx hp := by
    rintro ⟨rules, hrules, hv⟩
    obtain ⟨files', hfiles, he⟩ := Run.mem_averageQuestions.1 hx
    cases he
    exact ha.fits files hfiles v ⟨rules, plan, hrules, hp, hv size rfl⟩
  collectionsFit files q' plan c hx := by
    obtain ⟨files', -, he⟩ := Run.mem_averageQuestions.1 hx
    cases he
  positive k hk := by
    rw [hk]
    exact ha.positive
  uniform plan q' rules files v k k' hk hk' hv := by
    cases hk
    cases hk'
    exact hv

theorem trusted_collection (hshelf : r.shelf = some shelf) (hd : shelf.Dependable r.store r.files good)
    (ha : r.AsksCollection α good q s) : (asking r good q none [⟨.collect, r.files, q⟩] s).Trusted α where
  dependable s' hs' := by
    obtain rfl : shelf = s' := Option.some.inj (hshelf.symm.trans hs')
    exact hd
  separate x y hx hy _ := by rw [List.mem_singleton.1 hx, List.mem_singleton.1 hy]
  filesHeld x hx := by
    rw [List.mem_singleton.1 hx]
    exact List.Subset.refl _
  filesFit x hx := by
    rw [List.mem_singleton.1 hx]
    exact ha.files
  averagesFit files q' plan v hx := by cases List.mem_singleton.1 hx
  collectionsFit files q' plan c hx hp := by
    cases List.mem_singleton.1 hx
    rintro ⟨rules, hrules, hc⟩
    exact ha.fits c (Run.collectionOn_eq_ok.2 ⟨rules, hrules, plan, hp, hc⟩)
  positive k hk := by
    rw [hk]
    exact Option.some_ne_none _ ∘ Eq.symm
  uniform plan q' rules files v k k' hk hk' hv := by
    cases hk
    cases hk'
    exact hv

omit [Binary α] [Binary.Lawful α] in
/-- What the shelf holds for the files of a query is right when it is what the files come to. -/
theorem rightAverage_iff {questions : List Question} {files : List String} {v : WeightedAverage α} :
    (asking r good q size questions s).RightAverage (planned r q s) files q v ↔ r.ComesTo s q size files v := by
  constructor
  · rintro ⟨plan, hplan, -, rules, hrules, hv⟩
    exact ⟨rules, plan, hrules, planned_eq_some.1 hplan, hv size rfl⟩
  · rintro ⟨rules, plan, hrules, hplan, hv⟩
    exact ⟨plan, planned_eq_some.2 hplan, hplan, rules, hrules, fun k hk => by rw [hk]; exact hv⟩

theorem sound_average (hshelf : r.shelf = some shelf) (ha : r.AsksAverage α good q size s) :
    (asking r good q size (r.averageQuestions q size) s).Sound α (planned r q s) s.disk where
  good := ha.good
  loads _ _ := rfl
  averages s' hs' files q' hx a hload := by
    obtain rfl : shelf = s' := Option.some.inj (hshelf.symm.trans hs')
    obtain ⟨files', hfiles, he⟩ := Run.mem_averageQuestions.1 hx
    cases he
    refine rightAverage_iff.2 (ha.right files hfiles a.value ?_)
    rw [Run.held_of_shelf hshelf, Run.keyFor]
    exact congrArg _ hload
  collections s' hs' files q' hx := by
    obtain ⟨files', -, he⟩ := Run.mem_averageQuestions.1 hx
    cases he

theorem sound_collection (hshelf : r.shelf = some shelf) (ha : r.AsksCollection α good q s) :
    (asking r good q none [⟨.collect, r.files, q⟩] s).Sound α (planned r q s) s.disk where
  good := ha.good
  loads _ _ := rfl
  averages s' hs' files q' hx := by cases List.mem_singleton.1 hx
  collections s' hs' files q' hx a hload := by
    obtain rfl : shelf = s' := Option.some.inj (hshelf.symm.trans hs')
    cases List.mem_singleton.1 hx
    have hheld : r.held s.disk .collect (r.keyFor .collect r.files q) = some a.value := by
      rw [Run.held_of_shelf hshelf, Run.keyFor]
      exact congrArg _ hload
    obtain ⟨rules, hrules, plan, hplan, hc⟩ := Run.collectionOn_eq_ok.1 (ha.right a.value hheld)
    exact ⟨plan, planned_eq_some.2 hplan, hplan, rules, hrules, hc⟩

end Ground

namespace Run

/-! ## Scenes in which a query has the same answer -/

/-- In both scenes a run reads the same data with the same plan. -/
structure SameData (r : Run) (q : Query) (s s₂ : Scene) : Prop where
  loads : ∀ file ∈ r.files, r.store.load s₂.disk file = r.store.load s.disk file
  plan : r.planOn s₂.disk s₂.memory.offset q.splits = r.planOn s.disk s.memory.offset q.splits

section

variable {α : Type} [Scalar α] {r : Run} {q : Query} {size : Option Nat} {s s' s₂ : Scene}

/-- With the same data and the same offset there is the same plan. -/
theorem sameData_of_eq (hload : ∀ file ∈ r.files, r.store.load s₂.disk file = r.store.load s.disk file)
    (ho : s₂.memory.offset = s.memory.offset) : r.SameData q s s₂ := by
  refine ⟨hload, ?_⟩
  rw [ho]
  exact planOn_congr hload _

/-- The offset that was known before a call or is known after it makes no difference. -/
theorem sameData_of_offset {plan : ReadingPlan} (hplan : r.planOn s.disk s.memory.offset q.splits = .ok plan)
    (hsettled : r.settledPlan s'.memory.offset q.splits = some plan)
    (hload : ∀ file ∈ r.files, r.store.load s₂.disk file = r.store.load s.disk file)
    (hoffset : s₂.memory.offset = s.memory.offset ∨ s₂.memory.offset = s'.memory.offset) : r.SameData q s s₂ := by
  rcases hoffset with he | he
  · exact sameData_of_eq hload he
  · exact ⟨hload, by rw [he, planOn_of_settled hsettled, hplan]⟩

namespace SameData

variable (h : r.SameData q s s₂)

include h

theorem comesTo_iff {files : List String} (hfiles : files ⊆ r.files) {v : WeightedAverage α} :
    r.ComesTo s₂ q size files v ↔ r.ComesTo s q size files v := by
  have htotal : ∀ (plan : ReadingPlan) (rules : List Rule.Predicate),
      (plan.totalOf (r.store.load s₂.disk) q rules (Cache.blocksOf size files) : Outcome (Option (WeightedAverage α))) =
        plan.totalOf (r.store.load s.disk) q rules (Cache.blocksOf size files) := fun plan rules =>
    ReadingPlan.totalOf_congr fun _ hb name hname => h.loads name (hfiles (Cache.subset_of_mem_blocksOf hb hname))
  unfold ComesTo
  simp only [h.plan, htotal]

theorem averageOn_eq : (r.averageOn s₂.disk s₂.memory.offset q size : Outcome (WeightedAverage α)) =
    r.averageOn s.disk s.memory.offset q size :=
  averageOn_congr h.plan h.loads size

theorem collectionOn_eq : (r.collectionOn s₂.disk s₂.memory.offset q : Outcome (CollectedBuckets α)) =
    r.collectionOn s.disk s.memory.offset q :=
  collectionOn_congr h.plan h.loads

omit [Scalar α] in
theorem any_holdsData_eq {files : List String} (hfiles : files ⊆ r.files) :
    files.any (r.holdsData s₂.disk q) = files.any (r.holdsData s.disk q) := by
  rw [Bool.eq_iff_iff, List.any_eq_true, List.any_eq_true]
  refine exists_congr fun name => and_congr_right fun hname => ?_
  rw [holdsData_congr (h.loads name (hfiles hname))]

variable [Binary α] [Binary.Lawful α] {good : Disk → Prop} (hgood : good s₂.disk) (hnow : Fits s₂.now)

include hgood hnow

/-- With the same data a query may be asked again where what the shelf holds was there before or is right. -/
theorem asksAverage (ha : r.AsksAverage α good q size s)
    (hheld : ∀ files ∈ r.files :: Cache.blocksOf size r.files, ∀ v : WeightedAverage α,
      r.held s₂.disk .average (r.keyFor .average files q) = some v →
        r.held s.disk .average (r.keyFor .average files q) = some v ∨ r.ComesTo s q size files v) :
    r.AsksAverage α good q size s₂ where
  good := hgood
  now := hnow
  positive := ha.positive
  apart := ha.apart
  files := ha.files
  fits files hfiles v hv := ha.fits files hfiles v ((h.comesTo_iff (subset_of_asked hfiles)).1 hv)
  right files hfiles v hv :=
    (h.comesTo_iff (subset_of_asked hfiles)).2 ((hheld files hfiles v hv).elim (ha.right files hfiles v) id)

theorem asksCollection (ha : r.AsksCollection α good q s) (hheld : ∀ c : CollectedBuckets α,
      r.held s₂.disk .collect (r.keyFor .collect r.files q) = some c →
        r.held s.disk .collect (r.keyFor .collect r.files q) = some c ∨
        r.collectionOn s.disk s.memory.offset q = .ok c) :
    r.AsksCollection α good q s₂ where
  good := hgood
  now := hnow
  files := ha.files
  fits c hc := ha.fits c (h.collectionOn_eq.symm.trans hc)
  right c hc := by
    rw [h.collectionOn_eq]
    exact (hheld c hc).elim (ha.right c) id

end SameData

/-! ## Outcomes with the shelf and without -/

variable [Binary α] [Binary.Lawful α] {shelf : Shelf} {good : Disk → Prop} {opts : AverageOptions}

/-- A run that may ask for an average has the outcome that it has without the shelf. -/
theorem AsksAverage.run_average (hshelf : r.shelf = some shelf) (hd : shelf.Dependable r.store r.files good)
    (ha : r.AsksAverage α good q opts.blockSize s) : ∃ (o : Outcome (RunAverage α)) (s' : Scene),
      (r.average q opts).run s = (o, s') ∧
        o.map (·.average) = ((r.average q opts.withoutShelf : Job (RunAverage α)).run s).1.map (·.average) := by
  obtain ⟨o, s', hrun, ho, -⟩ := Ground.run_average_settled (α := α) (Ground.trusted_average hshelf hd ha)
    ⟨rfl, List.Subset.refl _⟩ rfl
    (fun _ => ⟨rfl, fun _ hx => hx⟩) (fun _ => ha.now) (fun _ hp => hp) (fun _ hp => Ground.planned_eq_some.1 hp)
    (Ground.sound_average hshelf ha)
  exact ⟨o, s', hrun, ho.trans (outcome_average r q opts s).symm⟩

theorem AsksCollection.run_collect (hshelf : r.shelf = some shelf) (hd : shelf.Dependable r.store r.files good)
    (ha : r.AsksCollection α good q s) (opts : AverageOptions) : ∃ (o : Outcome (RunCollection α)) (s' : Scene),
      (r.collect q opts).run s = (o, s') ∧
        o.map (·.buckets) = ((r.collect q opts.withoutShelf : Job (RunCollection α)).run s).1.map (·.buckets) := by
  obtain ⟨o, s', hrun, ho, -⟩ := Ground.run_collect_settled (α := α) (Ground.trusted_collection hshelf hd ha)
    ⟨rfl, List.Subset.refl _⟩
    (fun _ => ⟨rfl, fun _ hx => hx⟩) (fun _ => ha.now) (fun _ hp => hp) (fun _ hp => Ground.planned_eq_some.1 hp)
    (Ground.sound_collection hshelf ha)
  exact ⟨o, s', hrun, ho.trans (outcome_collect r q opts s).symm⟩

end

/-! ## What an average saves -/

variable {α : Type} [Scalar α] {r : Run} {q : Query}

theorem totalOf_block {size : Option Nat} {load : String → Outcome ShotFile} {plan : ReadingPlan}
    {rules : List Rule.Predicate} (hsize : size ≠ some 0) {files : List String}
    (hb : files ∈ Cache.blocksOf size r.files) :
    (plan.totalOf load q rules (Cache.blocksOf size files) : Outcome (Option (WeightedAverage α))) =
      plan.blockAverage load q rules files := by
  rw [Cache.blocksOf_block hsize hb, ReadingPlan.totalOf_single]

variable [Binary α] [Binary.Lawful α] {shelf : Shelf} {good : Disk → Prop} {opts : AverageOptions} {s s' : Scene}

namespace Fills

variable {a : RunAverage α} {rules : List Rule.Predicate} {plan : ReadingPlan}
    {parts : List (Deposit (WeightedAverage α))}
  (hf : r.Fills shelf q opts s s' a rules plan parts) (ha : r.AsksAverage α good q opts.blockSize s)

include hf ha

/-- An average that is put together from blocks is what the files come to. -/
theorem average_comesTo : r.ComesTo s q opts.blockSize r.files a.average := by
  refine ⟨rules, plan, hf.compile, hf.planned, hf.total fun files hb _ v hheld => ?_⟩
  obtain ⟨rules', plan', hrules', hplan', hv⟩ := ha.right files (List.mem_cons_of_mem _ hb) v hheld
  rw [hf.compile] at hrules'
  rw [hf.planned] at hplan'
  cases hrules'
  cases hplan'
  rwa [← totalOf_block ha.positive hb]

/-- What a call saves for some files is what they come to. -/
theorem comesTo {x : Deposit (WeightedAverage α)} (hx : x ∈ r.deposits q opts parts a.average) :
    r.ComesTo s q opts.blockSize x.files x.value := by
  obtain ⟨-, ⟨hb, hvalue⟩ | ⟨hfiles, hvalue⟩⟩ := hf.of_mem hx
  · exact ⟨rules, plan, hf.compile, hf.planned, (totalOf_block ha.positive hb).trans hvalue⟩
  · rw [hfiles, hvalue]
    exact hf.average_comesTo ha

/-- What a call saves fits the form it is written in. -/
theorem fits_deposits : ∀ x ∈ r.deposits q opts parts a.average, Fits (x.artifact s.now) := by
  intro x hx
  unfold Deposit.artifact
  rw [(hf.of_mem hx).1]
  exact Artifact.fits_make (ha.files _ (hf.asked hx)) ha.now (ha.fits _ (hf.asked hx) _ (hf.comesTo ha hx))

/-- The key tells what is saved. -/
theorem eq_of_key {x y : Deposit (WeightedAverage α)} (hx : x ∈ r.deposits q opts parts a.average)
    (hy : y ∈ r.deposits q opts parts a.average) (hkey : x.key = y.key) : x = y := by
  have hfiles : x.files = y.files :=
    ha.apart _ (hf.asked hx) _ (hf.asked hy) (by rw [← (hf.of_mem hx).1, ← (hf.of_mem hy).1, hkey])
  refine Deposit.ext hkey hfiles ((hf.comesTo ha hx).unique ?_)
  rw [hfiles]
  exact hf.comesTo ha hy

end Fills

end Run
end ShotTally
