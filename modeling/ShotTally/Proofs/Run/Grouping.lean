/-
Files grouped into runs. Over exact numbers the averages of the runs of a set are those of blocks of files, so
combining them comes to the average of one run over all the files, however either side is cut into blocks.
-/
import ShotTally.Proofs.Codec.Rational
import ShotTally.Proofs.Run.Configuration
import ShotTally.Proofs.Run.Exactness
import ShotTally.Proofs.Tensor.RowView

namespace ShotTally

open Exact
open RunSet (Stage)

/-! ## Arrays side by side -/

namespace Tensor

variable {α : Type}

/-- The rows of an array are some arrays of one shape, in order. -/
structure Stacks (parts : List (Tensor α)) (t : Tensor α) : Prop where
  shape : t.shape = parts.length :: t.innerShape
  shapes : ∀ p ∈ parts, p.shape = t.innerShape
  rows : t.rows = .ok (parts.map (·.data))

/-- Arrays of one shape are put side by side. -/
theorem exists_stack (parts : List (Tensor α)) {inner : List Nat} (hne : parts ≠ [])
    (hshape : ∀ p ∈ parts, p.shape = inner) (hwf : ∀ p ∈ parts, p.WellFormed) :
    ∃ t, Tensor.stack parts = .ok t ∧ Stacks parts t := by
  refine ⟨_, stack_eq_ofRows hne hshape, ?_, hshape, (fits_map_data hshape hwf).rows_ofRows⟩
  rw [ofRows, List.length_map]
  rfl

end Tensor

namespace Exact

/-- The average over some rows has as many elements as its shapes call for. -/
theorem wellFormed_averageOf (bucketShape inner : List Nat) (parts : List (List (Tensor ℚ))) :
    (averageOf bucketShape inner parts).average.WellFormed ∧
    (averageOf bucketShape inner parts).weights.WellFormed := by
  constructor
  · show List.length (List.flatMap _ _) = volume (bucketShape ++ inner)
    rw [length_flatMap_const fun _ _ => by rw [List.length_map, List.length_range], List.length_range, volume_append]
  · show List.length (List.map _ _) = volume bucketShape
    rw [List.length_map, List.length_range]

end Exact

/-! ## The averages of blocks -/

namespace ReadingPlan

variable {plan : ReadingPlan} {load : String → Outcome ShotFile} {q : Query} {rules : List Rule.Predicate}

/-- Cut into blocks or not, files come to the same. -/
theorem totalOf_iff_blockAverage (hq : q.rules ≠ []) {size : Option Nat} (hs : size ≠ some 0) {files : List String}
    {o : Option (WeightedAverage ℚ)} :
    plan.totalOf load q rules (Cache.blocksOf size files) = .ok o ↔ plan.blockAverage load q rules files = .ok o := by
  rw [totalOf_eq_ok hq, blockAverage_eq_ok hq, Cache.flatten_blocksOf hs]

/-- Folding the averages of blocks comes to the average over all files. -/
theorem totalOf_of_fold (hq : q.rules ≠ []) {blocks : List (List String)} {averages : List (WeightedAverage ℚ)}
    {v : WeightedAverage ℚ}
    (h : List.Forall₂ (fun files a => plan.blockAverage load q rules files = .ok (some a)) blocks averages)
    (hv : WeightedAverage.fold averages = .ok (some v)) {size : Option Nat} (hs : size ≠ some 0) :
    plan.totalOf load q rules (Cache.blocksOf size blocks.flatten) = .ok (some v) := by
  have hblocks : blocks.mapM (plan.blockAverage load q rules) = .ok (averages.map some) :=
    mapM_eq_ok.2 (List.forall₂_map_right_iff.2 h)
  have hpresent : foldPresent (averages.map some) = .ok (some v) := by
    rw [foldPresent, List.filterMap_map]
    simpa using hv
  have htotal : plan.totalOf load q rules blocks = .ok (some v) :=
    totalOf_iff_blockAverages.2 (bind_eq_ok.2 ⟨_, hblocks, hpresent⟩)
  rwa [totalOf_eq_ok hq, ← Cache.flatten_blocksOf hs blocks.flatten, ← totalOf_eq_ok hq] at htotal

/-- The average of a block has the shape of its buckets and as many elements as its shapes call for. -/
theorem wellFormed_of_blockAverage (hq : q.rules ≠ []) {files : List String} {a : WeightedAverage ℚ}
    (h : plan.blockAverage load q rules files = .ok (some a)) :
    a.weights.shape = q.bucketShape ∧ a.average.WellFormed ∧ a.weights.WellFormed := by
  obtain ⟨xs, -, hcomes⟩ := (blockAverage_eq_ok hq).1 h
  obtain ⟨inner, -, -, rfl⟩ := comes_some.1 hcomes
  exact ⟨rfl, wellFormed_averageOf _ _ _⟩

theorem wellFormed_of_blockAverages (hq : q.rules ≠ []) {blocks : List (List String)}
    {averages : List (WeightedAverage ℚ)}
    (h : List.Forall₂ (fun files a => plan.blockAverage load q rules files = .ok (some a)) blocks averages) :
    ∀ a ∈ averages, a.weights.shape = q.bucketShape ∧ a.average.WellFormed ∧ a.weights.WellFormed := by
  induction h with
  | nil => exact fun _ ha => absurd ha List.not_mem_nil
  | cons hblock _ ih => exact List.forall_mem_cons.2 ⟨wellFormed_of_blockAverage hq hblock, ih⟩

end ReadingPlan

/-! ## Runs that read alike -/

namespace Run

/-- Runs that read the same data with the same settings: they may differ in their names, their files and their
shelves. -/
structure ReadsLike (r₀ r : Run) : Prop where
  store : r.store = r₀.store
  aliases : r.aliases = r₀.aliases
  classifier : r.classifier = r₀.classifier
  shotIndexDataset : r.shotIndexDataset = r₀.shotIndexDataset
  sourcePeriodDataset : r.sourcePeriodDataset = r₀.sourcePeriodDataset

theorem ReadsLike.planWith {r₀ r : Run} (h : r₀.ReadsLike r) (o : Int) : r.planWith o = r₀.planWith o := by
  unfold Run.planWith
  rw [h.aliases, h.classifier, h.shotIndexDataset, h.sourcePeriodDataset]

variable {r : Run} {d : Disk} {offset : Option Int} {q : Query} {size : Option Nat} {o : Int}

/-- With the offset configured a run has an average when all its files taken as one block do. -/
theorem averageOn_iff_blockAverage (hq : q.rules ≠ []) (hs : size ≠ some 0) (ho : r.classifier.modulatorOffset = some o)
    {a : WeightedAverage ℚ} : r.averageOn d offset q size = .ok a ↔ r.files ≠ [] ∧
      ∃ rules, Rule.Predicate.compileAll q.rules = .ok rules ∧
        (r.planWith o).blockAverage (r.store.load d) q rules r.files = .ok (some a) := by
  rw [averageOn_eq_ok hs, planOn_of_settled (settledPlan_of_configured ho q.splits)]
  refine and_congr_right fun _ => exists_congr fun rules => and_congr_right fun _ => ?_
  rw [← ReadingPlan.totalOf_iff_blockAverage hq hs]
  constructor
  · rintro ⟨plan, hplan, h⟩
    cases hplan
    exact h
  · exact fun h => ⟨_, rfl, h⟩

end Run

/-- The combined average of a set is the fold of the averages of its runs. -/
theorem RunSetAverage.combined_eq_ok {α : Type} [Scalar α] {res : RunSetAverage α} {v : WeightedAverage α} :
    res.combined = .ok v ↔ WeightedAverage.fold (res.runs.map (·.2)) = .ok (some v) := by
  unfold combined
  rw [bind_eq_ok]
  constructor
  · rintro ⟨_ | a, ha, h⟩
    · cases h
    · cases h
      exact ha
  · exact fun h => ⟨some v, h, rfl⟩

/-! ## Tours of a set -/

namespace RunSet

variable {β : Type} {s : RunSet} {stage stage' : Stage} {task : Run → Job β}

/-- The runs of a set, in order. -/
def runsAt (s : RunSet) (stage : Stage) : List Run := s.members.filterMap fun place => (Session.runsOn stage)[place]?

/-- The result of a task for a run, on this disk. -/
def Answers (task : Run → Job β) (d : Disk) (r : Run) (b : β) : Prop :=
  ∃ scene scene' : Scene, scene.disk = d ∧ (task r).run scene = (.ok b, scene')

/-- A task that leaves the disk as it is. -/
def Quiet (task : Run → Job β) : Prop := ∀ (r : Run) (scene : Scene), ((task r).run scene).2.disk = scene.disk

theorem run_visit_none {place : Nat} (h : stage.roster[place]? = none) (task : Run → Job β) :
    (visit place task).run stage = (.ok none, stage) := by
  have hget : ∀ f : Stage → Tour (Option β), ((get : Tour Stage) >>= f).run stage = (f stage).run stage := fun _ => rfl
  rw [visit, hget, h]
  rfl

/-- A visit lets the member work with what it remembers. -/
theorem run_visit_some {place : Nat} {m : Member} (h : stage.roster[place]? = some m) {o : Outcome β} {scene : Scene}
    (hrun : (task m.run).run ⟨stage.disk, m.memory, [], stage.now⟩ = (o, scene)) :
    (visit place task).run stage = (o.map some, { stage with
      roster := stage.roster.set place ⟨m.run, scene.memory⟩
      disk := scene.disk
      journal := stage.journal ++ scene.journal }) := by
  have hget : ∀ f : Stage → Tour (Option β), ((get : Tour Stage) >>= f).run stage = (f stage).run stage := fun _ => rfl
  rw [visit, hget, h]
  dsimp only [Roster.work]
  rw [hrun]
  cases o <;> rfl

/-- A visit that succeeds has the result of the member, and changes what members remember at most. -/
theorem answers_of_visit (hquiet : Quiet task) {place : Nat} {o : Option β}
    (h : (visit place task).run stage = (.ok o, stage')) :
    Option.Rel (Answers task stage.disk) (Session.runsOn stage)[place]? o ∧ stage'.disk = stage.disk ∧
      Session.runsOn stage' = Session.runsOn stage := by
  rw [Session.runsOn, List.getElem?_map]
  cases hm : stage.roster[place]? with
  | none =>
    rw [run_visit_none hm] at h
    cases h
    exact ⟨.none, rfl, rfl⟩
  | some m =>
    have hdisk := hquiet m.run ⟨stage.disk, m.memory, [], stage.now⟩
    rcases hrun : (task m.run).run ⟨stage.disk, m.memory, [], stage.now⟩ with ⟨_ | b, scene⟩
    · rw [run_visit_some hm hrun] at h
      cases h
    · rw [run_visit_some hm hrun] at h
      rw [hrun] at hdisk
      cases h
      refine ⟨.some ⟨_, scene, rfl, hrun⟩, hdisk, ?_⟩
      -- the run of the member stays
      obtain ⟨hi, rfl⟩ := List.getElem?_eq_some_iff.1 hm
      refine List.ext_getElem? fun i => ?_
      rw [Session.runsOn, List.map_set, List.getElem?_set]
      split
      · rename_i he
        subst he
        simp [hi]
      · rfl

/-- The visits of a tour that succeeds, in order. -/
theorem answers_of_visits (hquiet : Quiet task) : ∀ {members : List Nat} {stage stage' : Stage} {os : List (Option β)},
    (members.mapM fun place => visit place task).run stage = (.ok os, stage') →
      List.Forall₂ (fun place o => Option.Rel (Answers task stage.disk) (Session.runsOn stage)[place]? o) members os
  | [], _, _, _, h => by
    cases h
    exact .nil
  | place :: members, stage, stage', os, h => by
    rw [List.mapM_cons] at h
    obtain ⟨o, stage₁, hvisit, h⟩ := exists_of_run_bind h
    obtain ⟨others, stage₂, hrest, h⟩ := exists_of_run_bind h
    cases h
    obtain ⟨ho, hdisk, hruns⟩ := answers_of_visit hquiet hvisit
    have hothers := answers_of_visits hquiet hrest
    rw [hdisk, hruns] at hothers
    exact .cons ho hothers

/-- The results of a tour are those of the runs of the set, in order and with their names. -/
theorem answers_of_tour (hquiet : Quiet task) {results : List (String × β)}
    (h : (s.tour task).run stage = (.ok results, stage')) :
    List.Forall₂ (fun r x => x.1 = r.name ∧ Answers task stage.disk r x.2) (s.runsAt stage) results := by
  unfold tour at h
  obtain ⟨os, stage₁, hvisits, h⟩ := exists_of_run_bind h
  cases h
  have hnamed : Quiet fun r => do return (r.name, ← task r) := fun r scene => by
    rw [Job.run_bind, ← hquiet r scene]
    rcases (task r).run scene with ⟨_ | b, scene'⟩ <;> rfl
  have hruns : s.runsAt stage = (s.members.map fun place => (Session.runsOn stage)[place]?).filterMap id := by
    rw [runsAt, List.filterMap_map]
    rfl
  rw [hruns]
  refine (forall₂_present (List.forall₂_map_left_iff.2 (answers_of_visits hnamed hvisits))).imp ?_
  rintro r x ⟨scene, scene', hdisk, hrun⟩
  obtain ⟨b, scene₁, htask, hx⟩ := exists_of_run_bind hrun
  cases hx
  exact ⟨rfl, scene, scene', hdisk, htask⟩

/-! ## Combined averages -/

variable {res : RunSetAverage ℚ} {c : WeightedAverage ℚ}

/-- Averages that were folded have the shape of the result. -/
theorem shape_of_fold {averages : List (WeightedAverage ℚ)} (h : WeightedAverage.fold averages = .ok (some c)) :
    averages ≠ [] ∧ ∀ a ∈ averages, a.average.shape = c.average.shape := by
  cases averages with
  | nil => cases h
  | cons first others =>
    obtain ⟨v, hv, he⟩ := map_eq_ok.1 h
    cases he
    exact ⟨List.cons_ne_nil _ _, fun a ha => (WeightedAverage.sameShape_of_foldlM hv a ha).average⟩

section

variable [Binary ℚ] [Binary.Lawful ℚ] {q : Query} {opts opts' : AverageOptions}

theorem quiet_average (q : Query) (opts : AverageOptions) :
    Quiet fun r => (r.average q opts.withoutShelf : Job (RunAverage ℚ)) := fun r scene => by
  obtain ⟨o, scene', hrun, -, hdisk⟩ := Run.run_average_withoutShelf (α := ℚ) r q opts scene
  rw [hrun]
  exact hdisk

/-- The average of a run of the set, by itself. -/
def IsAverageOf (q : Query) (opts : AverageOptions) (d : Disk) (r : Run) (v : WeightedAverage ℚ) : Prop :=
  ∀ scene : Scene, scene.disk = d →
    ((r.average q opts.withoutShelf : Job (RunAverage ℚ)).run scene).1.map (·.average) = .ok v

/-- With the offset configured, what a run averages in a tour is what it averages by itself. -/
theorem isAverageOf_of_answers {r : Run} {o : Int} (ho : r.classifier.modulatorOffset = some o) {d : Disk}
    {a : RunAverage ℚ} (h : Answers (fun r => r.average q opts.withoutShelf) d r a) :
    IsAverageOf q opts d r a.average := by
  obtain ⟨scene₀, scene₁, hd, hrun⟩ := h
  intro scene hscene
  have hsame := Run.outcome_average (α := ℚ) r q opts scene₀
  rw [hrun] at hsame
  have hcongr : (r.averageOn scene.disk scene.memory.offset q opts.blockSize : Outcome (WeightedAverage ℚ)) =
      r.averageOn scene₀.disk scene₀.memory.offset q opts.blockSize :=
    Run.averageOn_congr (Run.planOn_of_configured ho _) (fun _ _ => by rw [hscene, hd]) opts.blockSize
  rw [Run.outcome_average, hcongr]
  exact hsame.symm

/-- It is that of its files as one block. -/
theorem blockAverage_of_isAverageOf {single r : Run} {o : Int} (hlike : single.ReadsLike r)
    (ho : single.classifier.modulatorOffset = some o) (hq : q.rules ≠ []) {d : Disk} {v : WeightedAverage ℚ}
    (h : IsAverageOf q opts d r v) : r.files ≠ [] ∧ ∃ rules, Rule.Predicate.compileAll q.rules = .ok rules ∧
      (single.planWith o).blockAverage (single.store.load d) q rules r.files = .ok (some v) := by
  have hv := h ⟨d, .fresh, [], ""⟩ rfl
  rw [Run.outcome_average] at hv
  have hr : r.classifier.modulatorOffset = some o := by rw [hlike.classifier, ho]
  rw [← hlike.store, ← hlike.planWith]
  exact (Run.averageOn_iff_blockAverage hq (Run.positive_of_averageOn hv) hr).1 hv

variable {single : Run} {o : Int}

/-- The averages of a set are those of its runs, in order and with their names. -/
theorem averages_of_runs (hlike : ∀ r ∈ s.runsAt stage, single.ReadsLike r)
    (ho : single.classifier.modulatorOffset = some o)
    (h : (s.average q opts.withoutShelf).run stage = (.ok res, stage')) :
    List.Forall₂ (fun r x => x.1 = r.name ∧ IsAverageOf q opts stage.disk r x.2) (s.runsAt stage) res.runs := by
  unfold average at h
  obtain ⟨results, stage₁, htour, h⟩ := exists_of_run_bind h
  cases h
  refine List.forall₂_map_right_iff.2 ?_
  refine ((List.forall₂_and_left _ _).2 ⟨hlike, answers_of_tour (quiet_average q opts) htour⟩).imp ?_
  rintro r x ⟨hr, hname, ha⟩
  exact ⟨hname, isAverageOf_of_answers (by rw [hr.classifier, ho]) ha⟩

/-- With the offset configured the averages of the runs are those of their files, each run a block. -/
theorem blockAverages_of_runs (ho : single.classifier.modulatorOffset = some o) (hq : q.rules ≠ []) {d : Disk}
    {rs : List Run} {named : List (String × WeightedAverage ℚ)} (hlike : ∀ r ∈ rs, single.ReadsLike r)
    (h : List.Forall₂ (fun r x => x.1 = r.name ∧ IsAverageOf q opts d r x.2) rs named) (hne : named ≠ []) :
    rs.flatMap (·.files) ≠ [] ∧ ∃ rules, Rule.Predicate.compileAll q.rules = .ok rules ∧
      List.Forall₂ (fun files a => (single.planWith o).blockAverage (single.store.load d) q rules files = .ok (some a))
        (rs.map (·.files)) (named.map (·.2)) := by
  have hblocks := ((List.forall₂_and_left _ _).2 ⟨hlike, h⟩).imp fun r x hrx =>
    blockAverage_of_isAverageOf hrx.1 ho hq hrx.2.2
  obtain ⟨x, named, rfl⟩ := List.exists_cons_of_ne_nil hne
  obtain ⟨r, rs, ⟨hfiles, rules, hrules, -⟩, -, rfl⟩ := List.forall₂_cons_right_iff.1 hblocks
  refine ⟨by simp [List.flatMap_cons, hfiles], rules, hrules, ?_⟩
  refine List.forall₂_map_left_iff.2 (List.forall₂_map_right_iff.2 (hblocks.imp ?_))
  rintro r x ⟨-, rules', hrules', hblock⟩
  obtain rfl := Except.ok.inj (hrules.symm.trans hrules')
  exact hblock

/-- When the averages of the runs of a set can be combined, they come to the average of one run over all their files,
whatever the block sizes; and side by side they are those of the runs, in order. -/
theorem combined_eq_single_run (hlike : ∀ r ∈ s.runsAt stage, single.ReadsLike r)
    (ho : single.classifier.modulatorOffset = some o) (hfiles : single.files = (s.runsAt stage).flatMap (·.files))
    (hq : q.rules ≠ []) (hsize : opts'.blockSize ≠ some 0)
    (h : (s.average q opts.withoutShelf).run stage = (.ok res, stage')) (hc : res.combined = .ok c) :
    IsAverageOf q opts' stage.disk single c ∧
      List.Forall₂ (fun r x => x.1 = r.name ∧ IsAverageOf q opts stage.disk r x.2) (s.runsAt stage) res.runs ∧
      ∃ t, res.stacked = .ok t ∧ t.average.Stacks (res.runs.map (·.2.average)) ∧
        t.weights.Stacks (res.runs.map (·.2.weights)) := by
  have hruns := averages_of_runs hlike ho h
  have hfold := RunSetAverage.combined_eq_ok.1 hc
  obtain ⟨hne, hshape⟩ := shape_of_fold hfold
  obtain ⟨hnonempty, rules, hrules, hblocks⟩ := blockAverages_of_runs ho hq hlike hruns fun he => hne (by rw [he]; rfl)
  refine ⟨fun scene hscene => ?_, hruns, ?_⟩
  · -- the files of each run are a block of the files of the one run
    rw [Run.outcome_average, hscene, Run.averageOn_iff_blockAverage hq hsize ho, hfiles]
    refine ⟨hnonempty, rules, hrules, (ReadingPlan.totalOf_iff_blockAverage hq hsize).1 ?_⟩
    rw [List.flatMap_def]
    exact ReadingPlan.totalOf_of_fold hq hblocks hfold hsize
  · have hwf := ReadingPlan.wellFormed_of_blockAverages hq hblocks
    obtain ⟨average, haverage, hrows⟩ := Tensor.exists_stack ((res.runs.map (·.2)).map (·.average))
      (by simpa using hne) (List.forall_mem_map.2 hshape) (List.forall_mem_map.2 fun a ha => (hwf a ha).2.1)
    obtain ⟨weights, hweights, hrows'⟩ := Tensor.exists_stack ((res.runs.map (·.2)).map (·.weights))
      (by simpa using hne) (List.forall_mem_map.2 fun a ha => (hwf a ha).1)
      (List.forall_mem_map.2 fun a ha => (hwf a ha).2.2)
    rw [List.map_map] at hrows hrows'
    refine ⟨⟨average, weights⟩, ?_, hrows, hrows'⟩
    exact bind_eq_ok.2 ⟨_, haverage, bind_eq_ok.2 ⟨_, hweights, rfl⟩⟩

end

/-! ## Two runs over three files -/

/-- Files of four, two and no shots of a quantity. -/
def threeFiles : Run :=
  { Run.ofFiles "all" (.memory (.ofList [("a", Run.fourShots), ("b", Session.twoShots),
      ("c", .ofList [("bunches", Run.readingsOf [0])])])) ["a", "b", "c"] with
    classifier := { Classifier.standard with modulatorOffset := some 0 } }

/-- The files on two runs. -/
def parted : Stage :=
  ⟨[⟨{ threeFiles with name := "first", files := ["a"] }, .fresh⟩,
    ⟨{ threeFiles with name := "second", files := ["b", "c"] }, .fresh⟩], .empty [], [], ""⟩

/-- A set of both. -/
def bothParts : RunSet := ((empty.add 0).1.add 1).1

theorem combined_parted : ∃ res : RunSetAverage ℚ, ∃ c : WeightedAverage ℚ,
    res.combined = .ok c ∧ c.weights.data = [3, 0, 1, 2] ∧ c.average.data = [7 / 3, 0, 1, 2] ∧
      IsAverageOf Run.split { AverageOptions.standard with blockSize := some 2 } parted.disk threeFiles c := by
  obtain ⟨res, hres, c, hc, hweights, haverage⟩ : ∃ res : RunSetAverage ℚ,
      ((bothParts.average Run.split AverageOptions.standard.withoutShelf).run parted).1 = .ok res ∧
        ∃ c, res.combined = .ok c ∧ c.weights.data = [3, 0, 1, 2] ∧ c.average.data = [7 / 3, 0, 1, 2] := by
    decide +kernel
  have hlike : ∀ r ∈ bothParts.runsAt parted, threeFiles.ReadsLike r := by
    intro r hr
    rcases List.mem_pair.1 hr with rfl | rfl <;> exact ⟨rfl, rfl, rfl, rfl, rfl⟩
  rcases hrun : (bothParts.average (α := ℚ) Run.split AverageOptions.standard.withoutShelf).run
    parted with ⟨outcome, stage'⟩
  rw [hrun] at hres
  subst hres
  exact ⟨res, c, hc, hweights, haverage,
    (combined_eq_single_run hlike rfl rfl (by decide) (by decide) hrun hc).1⟩

end RunSet

end ShotTally
