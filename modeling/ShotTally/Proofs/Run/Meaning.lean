/-
A run over exact numbers: whatever was called before and kept on its shelf, there is an average
exactly when the rows can be collected without the shelf, and then it is their mean.
-/
import ShotTally.Proofs.Codec.Rational
import ShotTally.Proofs.Run.Exactness
import ShotTally.Proofs.Run.Growing

namespace ShotTally

open Binary (Fits)
open RunSet (Stage)

namespace Run

variable {r : Run} {d : Disk} {offset : Option Int} {q : Query} {size : Option Nat}

/-! ## Without the shelf -/

/-- There is an average exactly when the rows can be collected, and it is their mean. -/
theorem averageOn_iff_collectionOn (hq : q.rules ≠ []) (hs : size ≠ some 0) {a : WeightedAverage ℚ} :
    r.averageOn d offset q size = .ok a ↔ ∃ c, r.collectionOn d offset q = .ok c ∧ a = c.means := by
  rw [averageOn_eq_ok hs]
  simp only [collectionOn_eq_ok]
  constructor
  · rintro ⟨-, rules, hrules, plan, hplan, h⟩
    rw [ReadingPlan.totalOf_iff_collectionOf hq, Cache.flatten_blocksOf hs] at h
    obtain ⟨c, hc, rfl⟩ := h
    exact ⟨c, ⟨rules, hrules, plan, hplan, hc⟩, rfl⟩
  · rintro ⟨c, ⟨rules, hrules, plan, hplan, hc⟩, rfl⟩
    refine ⟨fun hempty => ?_, rules, hrules, plan, hplan, ?_⟩
    · rw [hempty] at hc
      cases hc
    · rw [ReadingPlan.totalOf_iff_collectionOf hq, Cache.flatten_blocksOf hs]
      exact ⟨c, hc, rfl⟩

end Run

/-- An average and what is collected for the same query: one is there exactly when the other is; there
is a bucket for each condition and rule; and bucket by bucket the average is the mean of the rows,
weighted by their number. -/
structure MeanOfRows (q : Query) (average : Outcome (RunAverage ℚ))
    (collection : Outcome (RunCollection ℚ)) : Prop where
  succeed : (∃ a, average = .ok a) ↔ ∃ c, collection = .ok c
  buckets : ∀ c, collection = .ok c → c.buckets.bucketShape = [4, q.rules.length] ∧
    c.buckets.rows.length = 4 * q.rules.length ∧ ∃ inner, ∀ t ∈ c.buckets.rows, t.innerShape = inner ∧ t.WellFormed
  means : ∀ a c, average = .ok a → collection = .ok c → a.average = c.buckets.means

namespace Ground

variable [Binary ℚ] [Binary.Lawful ℚ] {g : Ground} {r : Run} {q : Query} {opts opts' : AverageOptions}

/-! ## On sound ground -/

/-- On sound ground the average of a run is the mean of the rows it collects without the shelf. -/
theorem meanOfRows_of_sound (ht : g.Trusted ℚ) (hr : g.Serves r) (hk : g.sizes opts.blockSize) (hq : q.rules ≠ [])
    (hsh : opts.useCache = true ∨ opts.makeCache = true → g.Shares r (r.averageQuestions q opts.blockSize)) {s : Scene}
    (hn : Fits s.now) (hs : g.Sound ℚ (r.settledPlan s.memory.offset) s.disk) :
    MeanOfRows q ((r.average q opts).run s).1 ((r.collect q opts'.withoutShelf).run s).1 := by
  have hno : opts'.withoutShelf.useCache = true ∨ opts'.withoutShelf.makeCache = true →
      g.Shares r [⟨.collect, r.files, q⟩] := fun h => by rcases h with h | h <;> cases h
  obtain ⟨average, s₁, hrun, ha, -, -⟩ := run_average ht hr hk hsh (fun _ => hn) hs
  obtain ⟨collection, s₂, hrun', hc, -, -⟩ := run_collect ht hr hno (fun _ => hn) hs
  rw [hrun, hrun']
  -- both calls give what the plain definitions give on a sound ground, and those agree
  have hiff : ∀ a : WeightedAverage ℚ, average.map (·.average) = .ok a ↔
      ∃ c, collection.map (·.buckets) = .ok c ∧ a = c.means := fun a => by
    rw [ha, hc]
    exact Run.averageOn_iff_collectionOn hq (ht.positive _ hk)
  refine ⟨?_, fun c hok => ?_, fun a c hok hok' => ?_⟩
  · constructor
    · rintro ⟨a, rfl⟩
      obtain ⟨c, hcol, -⟩ := (hiff a.average).1 rfl
      obtain ⟨c, rfl, -⟩ := map_eq_ok.1 hcol
      exact ⟨c, rfl⟩
    · rintro ⟨c, rfl⟩
      obtain ⟨a, rfl, -⟩ := map_eq_ok.1 ((hiff c.buckets.means).2 ⟨c.buckets, rfl, rfl⟩)
      exact ⟨a, rfl⟩
  · cases hok
    obtain ⟨rules, -, plan, -, hcol⟩ := Run.collectionOn_eq_ok.1 hc.symm
    obtain ⟨hshape, inner, heven⟩ := ReadingPlan.even_of_collectionOf hq hcol
    refine ⟨hshape, ?_, inner, heven.rows⟩
    rw [heven.count, hshape, ReadingPlan.volume_bucketShape]
  · cases hok
    cases hok'
    obtain ⟨c', hcol, hmeans⟩ := (hiff a.average).1 rfl
    cases hcol
    exact hmeans

end Ground

namespace Session

variable [Binary ℚ] [Binary.Lawful ℚ] {r : Run} {good : Disk → Prop} {d : Disk} {involved : Question → Prop}

/-! ## One run and its shelf -/

/-- A stage with a single run. -/
def alone (r : Run) (memory : Memory) (d : Disk) : Stage := ⟨[⟨r, memory⟩], d, [], ""⟩

/-- The ground of a single run: any block size, and any offset that may be found. -/
def exactGround (r : Run) (files : List String) (d : Disk) (good : Disk → Prop) (involved : Question → Prop) : Ground :=
  ⟨r.shelf, r.store, files, r.store.load d, good, involved, (· ≠ some 0),
    fun plan => ∃ offset splits, r.settledPlan offset splits = some plan⟩

theorem trusted_exactGround {files : List String} (hdep : ∀ shelf ∈ r.shelf, shelf.Dependable r.store files good)
    (hsep : Shelf.Separate r.store.location? involved) (hheld : ∀ x, involved x → x.files ⊆ files)
    (hwrite : ∀ x, involved x → ∀ offset splits plan, r.settledPlan offset splits = some plan →
      x.Writable ℚ (r.store.load d) plan none) :
    (exactGround r files d good involved).Trusted ℚ where
  dependable := hdep
  separate := hsep
  filesHeld := hheld
  filesFit x hx := (hwrite x hx none .none _ (if_neg fun h => by cases h.1)).files
  averagesFit files q plan v hx := by
    rintro ⟨offset, splits, hp⟩ ⟨rules, hrules, hv⟩
    exact (hwrite _ hx offset splits plan hp).average rfl rules v hrules (hv none (by simp [exactGround]))
  collectionsFit files q plan c hx := by
    rintro ⟨offset, splits, hp⟩ ⟨rules, hrules, hc⟩
    exact (hwrite _ hx offset splits plan hp).collection rfl rules c hrules hc
  positive k hk := hk
  uniform plan q rules files v k k' hk hk' hv := ReadingPlan.totalOf_uniform hk hk' hv

omit [Binary.Lawful ℚ] in
theorem stands_alone {files : List String} {memory : Memory} (hgood : good d)
    (hempty : ∀ shelf ∈ r.shelf, shelf.Empty d)
    (hheld : r.files ⊆ files) : (exactGround r files d good involved).Stands ℚ (alone r memory d) := by
  have hmem : ∀ (i : Nat) (m : Member), (alone r memory d).roster[i]? = some m → i = 0 ∧ m = ⟨r, memory⟩ := by
    intro i m hi
    rcases i with _ | i
    · exact ⟨rfl, (Option.some.inj hi).symm⟩
    · cases hi
  refine ⟨fun i m hi => ?_, fun i m hi => ?_, fun i j m m' hi hj hij => ?_⟩
  · obtain ⟨-, rfl⟩ := hmem i m hi
    exact ⟨⟨⟨rfl, hheld⟩, fun offset splits _ hp => ⟨offset, splits, hp⟩⟩, rfl⟩
  · exact Ground.sound_of_empty hgood (fun _ _ => rfl) hempty
  · exact absurd ((hmem i m hi).1.trans (hmem j m' hj).1.symm) hij

/-- After any calls of a run, with whatever they left on its shelf: there is an average exactly when
the rows can be collected without the shelf; then each of the buckets has the number of its rows as
its weight and the mean of its rows as its average. -/
theorem average_eq_mean_of_rows {memory : Memory} {requests : List Request} {q : Query} {opts opts' : AverageOptions}
    {now : String} (hdep : ∀ shelf ∈ r.shelf, shelf.Dependable r.store (filesOf [r] requests) good) (hgood : good d)
    (hempty : ∀ shelf ∈ r.shelf, shelf.Empty d) (hq : q.rules ≠ []) (hk : opts.blockSize ≠ some 0)
    (hsep : Shelf.Separate r.store.location? (· ∈ questions [r] (requests ++ [⟨0, now, .average q opts⟩])))
    (hnow : ∀ x ∈ requests, Fits x.now) (hnow' : Fits now)
    (hwrite : ∀ x ∈ questions [r] (requests ++ [⟨0, now, .average q opts⟩]), ∀ offset splits plan,
      r.settledPlan offset splits = some plan → x.Writable ℚ (r.store.load d) plan none) :
    ∃ m : Member, (stageAfter ℚ (alone r memory d) requests).roster = [m] ∧
      let s : Scene := ⟨(stageAfter ℚ (alone r memory d) requests).disk, m.memory, [], now⟩
      MeanOfRows q ((m.run.average q opts).run s).1 ((m.run.collect q opts'.withoutShelf).run s).1 := by
  have hbrought : filesOf [r] (requests ++ [⟨0, now, .average q opts⟩]) = filesOf [r] requests := by
    simp [filesOf, Call.files]
  have ht := trusted_exactGround hdep hsep (fun _ hx => hbrought ▸ subset_filesOf_of_mem_questions hx) hwrite
  have hsize : ∀ x ∈ requests, ∀ q opts, x.call = .average q opts →
      opts.blockSize ≠ some 0 ∨ opts.blockSize = some 0 := fun _ _ _ opts _ => (em (opts.blockSize = some 0)).symm
  have happend := questions_append (α := ℚ) [⟨0, now, .average q opts⟩] requests (alone r memory d)
  have hstart : (exactGround r (filesOf [r] requests) d good
      (· ∈ questions [r] (requests ++ [⟨0, now, .average q opts⟩]))).Stands ℚ (alone r memory d) :=
    stands_alone hgood hempty (subset_filesOf_of_run (List.mem_singleton_self r))
  have hasked : ∀ y ∈ questions (runsOn (alone r memory d)) requests,
      y ∈ questions [r] (requests ++ [⟨0, now, .average q opts⟩]) := fun y hy => by
    show y ∈ questions (runsOn (alone r memory d)) _
    rw [happend]
    exact List.mem_append_left _ hy
  -- the requests keep the ground sound, so the last two calls are about a sound stage
  have hend := stands_stageAfter ht hstart hnow hsize hasked fun _ => subset_filesOf_of_request
  obtain ⟨m, hm⟩ : ∃ m, (stageAfter ℚ (alone r memory d) requests).roster = [m] :=
    List.length_eq_one_iff.1 (length_stageAfter requests (alone r memory d))
  have hget : (stageAfter ℚ (alone r memory d) requests).roster[0]? = some m := by rw [hm]; rfl
  have hruns : runsOn (stageAfter ℚ (alone r memory d) requests) = [m.run] := by rw [runsOn, hm]; rfl
  obtain ⟨hserves, hshelf⟩ := hend.serves 0 m hget
  refine ⟨m, hm, Ground.meanOfRows_of_sound ht hserves hk hq (fun hu => ⟨hshelf, fun y hy => ?_⟩) hnow'
    (hend.sound 0 m hget)⟩
  show y ∈ questions (runsOn (alone r memory d)) _
  rw [happend, hruns]
  refine List.mem_append_right _ (List.mem_append_left _ ?_)
  rw [Call.questions, if_pos (by rwa [Bool.or_eq_true])]
  exact hy

end Session

/-! ## A run that grows -/

namespace Session

/-- The average of three files is kept, and a fourth file is added. -/
def growing : List Request := [⟨0, "", .average (.all "q") (.inBlocks 2 true)⟩, ⟨0, "", .addFiles ["c", "d"]⟩]

/-- The next average recalls the block of the first two files and computes the other one. -/
theorem average_growing_eq_mean_of_rows :
    ∃ m : Member, (stageAfter ℚ (alone (Run.recording ["a", "b", "c"]) .fresh Run.recorded) growing).roster = [m] ∧
      let s : Scene :=
        ⟨(stageAfter ℚ (alone (Run.recording ["a", "b", "c"]) .fresh Run.recorded) growing).disk, m.memory, [], ""⟩
      MeanOfRows (.all "q") ((m.run.average (.all "q") (.inBlocks 2 true)).run s).1
        ((m.run.collect (.all "q") AverageOptions.standard.withoutShelf).run s).1 := by
  have hasked : ∀ x ∈ questions [Run.recording ["a", "b", "c"]]
      (growing ++ [⟨0, "", .average (.all "q") (.inBlocks 2 true)⟩]), x ∈ Run.askedRecording := by decide
  have hsep : Shelf.Separate (some "rawdata/run_07") (· ∈ questions [Run.recording ["a", "b", "c"]]
      (growing ++ [⟨0, "", .average (.all "q") (.inBlocks 2 true)⟩])) :=
    Shelf.separate_of_nodup Run.askedRecording hasked Run.nodup_askedRecording
  have hwrite : ∀ x ∈ Run.askedRecording, x.Writable ℚ ((Run.recording ["a", "b", "c"]).store.load Run.recorded)
      ((Run.recording ["a", "b", "c"]).planWith 0) none := by decide +kernel
  refine average_eq_mean_of_rows (fun s hs => ?_) Run.kept_recorded (fun s hs => ?_) (by decide) (by decide) hsep
    (by decide) (by decide) fun x hx offset splits plan hp => ?_
  · obtain rfl := Option.some.inj ((Run.shelf_recording _).symm.trans hs)
    exact Run.dependable_recording (by decide)
  · obtain rfl := Option.some.inj ((Run.shelf_recording _).symm.trans hs)
    exact Shelf.empty_of_unmade Run.plain_work Run.kept_recorded Run.unmade_recorded
  · rw [Run.settledPlan_of_configured rfl] at hp
    cases hp
    exact hwrite x (hasked x hx)

end Session
end ShotTally
