/-
What a key says of a call: runs with the same settings that use one key have one average, whatever
their files are called. It says nothing of the settings, and each of them makes a difference.
-/
import ShotTally.Proofs.Run.Transparency

namespace ShotTally

/-- Whether an outcome has a value of some kind can be decided. -/
instance Outcome.decidableExists {β : Type} (o : Outcome β) (P : β → Prop) [∀ b, Decidable (P b)] :
    Decidable (∃ b, o = .ok b ∧ P b) :=
  match o with
  | .error _ => .isFalse fun ⟨_, h, _⟩ => by cases h
  | .ok b => decidable_of_iff (P b) ⟨fun hb => ⟨b, rfl, hb⟩, fun ⟨_, h, hb⟩ => by cases h; exact hb⟩

/-! ## Without the shelf -/

namespace Ground

/-- The ground of a call that leaves the shelf alone. -/
def unshelved (r : Run) (d : Disk) (size : Option Nat) : Ground :=
  ⟨none, r.store, r.files, r.store.load d, (· = d), fun _ => False, (· = size), fun _ => True⟩

variable {α : Type} [Scalar α] [Binary α] [Binary.Lawful α] {r : Run} {d : Disk} {size : Option Nat}

theorem trusted_unshelved (hs : size ≠ some 0) : (unshelved r d size).Trusted α where
  dependable _ h := by cases h
  separate _ _ h := h.elim
  filesHeld _ h := h.elim
  filesFit _ h := h.elim
  averagesFit _ _ _ _ h := h.elim
  collectionsFit _ _ _ _ h := h.elim
  positive k hk := by rw [hk]; exact hs
  uniform plan q rules files v k k' hk hk' hv := by
    cases hk
    cases hk'
    exact hv

omit [Binary.Lawful α] in
theorem sound_unshelved (settled : Splits → Option ReadingPlan) : (unshelved r d size).Sound α settled d where
  good := rfl
  loads _ _ := rfl
  averages _ h := by cases h
  collections _ h := by cases h

end Ground

namespace Run

section

variable {α : Type} [Scalar α] [Binary α] {r r' : Run} {q q' : Query} {opts opts' : AverageOptions} {s s' : Scene}

/-- A block size of zero is refused before a file is read. -/
theorem outcome_average_refused (r : Run) (q : Query) {opts : AverageOptions} (hs : opts.blockSize = some 0)
    (s : Scene) :
    ((r.average q opts.withoutShelf).run s).1.map (·.average) =
      (r.averageOn s.disk s.memory.offset q opts.blockSize : Outcome (WeightedAverage α)) := by
  rw [average_eq, averageOn]
  by_cases hempty : r.files.isEmpty = true
  · rw [if_pos hempty, if_pos hempty]
    rfl
  · rw [if_neg hempty, if_neg hempty]
    dsimp only
    rcases hrules : Rule.Predicate.compileAll q.rules with e | rules
    · rfl
    · unfold averageByBlocks averageOfBlocks
      rw [show opts.withoutShelf.blockSize = some 0 from hs, hs]
      rfl

/-- An average that leaves the shelf alone leaves the disk as it is. -/
theorem run_average_withoutShelf [Binary.Lawful α] (r : Run) (q : Query) (opts : AverageOptions) (s : Scene) :
    ∃ (o : Outcome (RunAverage α)) (s' : Scene), (r.average q opts.withoutShelf).run s = (o, s') ∧
      o.map (·.average) = r.averageOn s.disk s.memory.offset q opts.blockSize ∧ s'.disk = s.disk := by
  by_cases hs : opts.blockSize = some 0
  -- no ground has this size
  · have ho := outcome_average_refused (α := α) r q hs s
    obtain ⟨o, s', hrun, hdisk, -⟩ := Ground.run_average_refused (α := α) (r := r) (q := q)
      (show opts.withoutShelf.blockSize = some 0 from hs) s
    rw [hrun] at ho
    exact ⟨o, s', hrun, ho, hdisk⟩
  · have hk : (Ground.unshelved r s.disk opts.blockSize).sizes opts.withoutShelf.blockSize := rfl
    have hshares : opts.withoutShelf.useCache = true ∨ opts.withoutShelf.makeCache = true →
        (Ground.unshelved r s.disk opts.blockSize).Shares r (r.averageQuestions q opts.withoutShelf.blockSize) := by
      rintro (h | h) <;> cases h
    obtain ⟨o, s', hrun, ho, hs', -⟩ := Ground.run_average (α := α) (Ground.trusted_unshelved hs)
      ⟨⟨rfl, List.Subset.refl _⟩, fun _ _ _ _ => trivial⟩ hk hshares (fun h => by cases h) (Ground.sound_unshelved _)
    exact ⟨o, s', hrun, ho, hs'.good⟩

/-- An average that leaves the shelf alone. -/
theorem outcome_average [Binary.Lawful α] (r : Run) (q : Query) (opts : AverageOptions) (s : Scene) :
    ((r.average q opts.withoutShelf).run s).1.map (·.average) =
      (r.averageOn s.disk s.memory.offset q opts.blockSize : Outcome (WeightedAverage α)) := by
  obtain ⟨o, s', hrun, ho, -⟩ := run_average_withoutShelf (α := α) r q opts s
  rw [hrun]
  exact ho

/-- A collection that leaves the shelf alone. -/
theorem outcome_collect [Binary.Lawful α] (r : Run) (q : Query) (opts : AverageOptions) (s : Scene) :
    ((r.collect q opts.withoutShelf).run s).1.map (·.buckets) =
      (r.collectionOn s.disk s.memory.offset q : Outcome (CollectedBuckets α)) := by
  have hs : (none : Option Nat) ≠ some 0 := by simp
  have hshares : opts.withoutShelf.useCache = true ∨ opts.withoutShelf.makeCache = true →
      (Ground.unshelved r s.disk none).Shares r [⟨.collect, r.files, q⟩] := by
    rintro (h | h) <;> cases h
  obtain ⟨o, s', hrun, ho, -, -⟩ := Ground.run_collect (α := α) (Ground.trusted_unshelved hs)
    ⟨⟨rfl, List.Subset.refl _⟩, fun _ _ _ _ => trivial⟩ hshares (fun h => by cases h) (Ground.sound_unshelved _)
  rw [hrun]
  exact ho

/-- An average that is found under the key of all files is the answer. -/
theorem outcome_average_of_held (hne : r.files ≠ []) {rules : List Rule.Predicate}
    (hrules : Rule.Predicate.compileAll q.rules = .ok rules) (hu : opts.useCache = true) {v : WeightedAverage α}
    (h : r.held s.disk .average (r.keyFor .average r.files q) = some v) :
    ((r.average q opts).run s).1.map (·.average) = .ok v := by
  obtain ⟨s', hrun, -, -, -⟩ := computes_lookUp (β := WeightedAverage α) (r := r) .average
    (r.keyFor .average r.files q) s rfl rfl
  rw [h] at hrun
  rw [average_eq, if_neg (by simpa using hne), hrules, Job.run_bind_ok (x := Job.lift (.ok rules)) (s := s) rfl,
    if_pos hu, Job.run_bind_ok hrun]
  rfl

/-! ## One key -/

/-- Two runs with the same settings whose calls use one key: where one of them has an average
without the shelf the other has the same, and it is given that one when it finds what the first has
kept. -/
theorem average_eq_of_key [Binary.Lawful α] (hkin : r.Kin r')
    (hload : ∀ file ∈ r'.files, r.store.load s'.disk file = r.store.load s.disk file)
    (hoffset : r.NeedsOffset q.splits → OneOffset r r' s.disk s'.disk s.memory.offset s'.memory.offset)
    (hsize : opts'.blockSize = opts.blockSize)
    (hsep : Shelf.Separate r.store.location? (· ∈ [⟨.average, r.files, q⟩, ⟨.average, r'.files, q'⟩]))
    (hkey : r.keyFor .average r.files q = r'.keyFor .average r'.files q') {a : RunAverage α}
    (ha : ((r.average q opts.withoutShelf).run s).1 = .ok a) :
    ∃ a' : RunAverage α, ((r'.average q' opts'.withoutShelf).run s').1 = .ok a' ∧ a'.average = a.average ∧
      ∀ (options : AverageOptions) (scene : Scene), options.useCache = true →
        r'.held scene.disk .average (r'.keyFor .average r'.files q') = some a.average →
        ((r'.average q' options).run scene).1.map (·.average) = .ok a'.average := by
  -- the files of the two calls have the same paths, and the queries are one
  have hkey' : Question.key r.store.location? ⟨.average, r.files, q⟩ =
      Question.key r.store.location? ⟨.average, r'.files, q'⟩ := by
    rw [keyFor, keyFor, hkin.store] at hkey
    exact hkey
  obtain ⟨-, rfl, hpaths⟩ := Question.text_inj (hsep _ _ (by simp) (by simp) hkey')
  have hfollows : List.Forall₂ (ReadingPlan.Follows (r.store.load s.disk)) r.files r'.files :=
    (Store.samePlace_of_filePaths hpaths).imp fun _ _ hab f hf => hab s.disk f hf
  -- so the other average is there
  have hon : r.averageOn s.disk s.memory.offset q opts.blockSize = .ok a.average := by
    rw [← outcome_average r q opts s, ha]
    rfl
  have hon' : r'.averageOn s'.disk s'.memory.offset q opts'.blockSize = .ok a.average := by
    rw [hkin] at hoffset ⊢
    rw [hsize]
    exact averageOn_renamed hload hfollows hoffset hon
  obtain ⟨a', ha', hav⟩ := map_eq_ok.1 ((outcome_average r' q opts' s').trans hon')
  refine ⟨a', ha', hav, fun options scene hu hheld => ?_⟩
  obtain ⟨hne, rules, hrules, -⟩ := (averageOn_eq_ok (positive_of_averageOn hon')).1 hon'
  rw [hav]
  exact outcome_average_of_held hne hrules hu hheld

end

/-! ## Two names of one file -/

/-- Readings of some shots. -/
def readingsOf (l : List Nat) : Dataset := .numeric ⟨[l.length], l.map Double.ofNat⟩

/-- Four shots with two counters, two quantities, two references of the modulator and two periods of
the source. -/
def fourShots : ShotFile :=
  .ofList [("bunches", readingsOf [0, 1, 2, 3]), ("counter", readingsOf [1, 2, 3, 4]), ("q", readingsOf [1, 2, 3, 4]),
    ("p", readingsOf [5, 6, 7, 8]), ("slu", readingsOf [0, 1, 0, 1]), ("slv", readingsOf [1, 0, 1, 0]),
    ("Background_Period", readingsOf [2]), ("Other_Period", readingsOf [4])]

/-- All rows of a quantity, by condition. -/
def split : Query := ⟨"q", [none], .both, .none⟩

/-- A run over a file in a folder. -/
def inFolder (file : String) : Run := { Run.ofFiles "folder" (.folder "/data") [file] with shelf := some ⟨"work"⟩ }

/-- The disk with this file. -/
def filed : Scene :=
  ⟨((Disk.empty []).put ["data"] .folder).put ["data", "a"] (.file fourShots.toBytes), .fresh, [], ""⟩

/-- The first run still has to find the offset, which the second one remembers. -/
theorem average_inFolder_eq_of_key : ∃ a a' : RunAverage Double,
    (((inFolder "a").average split AverageOptions.standard.withoutShelf).run filed).1 = .ok a ∧
      (((inFolder "/data/a").average split AverageOptions.standard.withoutShelf).run
        { filed with memory := ⟨some 0, []⟩ }).1 = .ok a' ∧
      a'.average = a.average ∧ a.average.weights.data = [2, 0, 0, 2].map Double.ofNat := by
  have hpath : Cache.filePaths (some "/data") ["a"] = Cache.filePaths (some "/data") ["/data/a"] := by decide
  have htext : Question.text (some "/data") ⟨.average, ["a"], split⟩ =
      Question.text (some "/data") ⟨.average, ["/data/a"], split⟩ := by
    unfold Question.text Cache.material
    rw [hpath]
  have hsep : Shelf.Separate (some "/data") (· ∈ [⟨.average, ["a"], split⟩, ⟨.average, ["/data/a"], split⟩]) := by
    intro x y hx hy _
    rcases List.mem_pair.1 hx with rfl | rfl <;> rcases List.mem_pair.1 hy with rfl | rfl
    · rfl
    · exact htext
    · exact htext.symm
    · rfl
  obtain ⟨a, ha, hweights⟩ : ∃ a : RunAverage Double,
      (((inFolder "a").average split AverageOptions.standard.withoutShelf).run filed).1 = .ok a ∧
      a.average.weights.data = [2, 0, 0, 2].map Double.ofNat := by decide +kernel
  have hkin : (inFolder "a").Kin (inFolder "/data/a") := rfl
  have hload : ∀ file ∈ (inFolder "/data/a").files,
    (inFolder "a").store.load { filed with memory := ⟨some 0, []⟩ }.disk file =
      (inFolder "a").store.load filed.disk file := fun _ _ => rfl
  have hdetected : (inFolder "a").detectOffsetIn filed.disk ["a"] = .ok 0 := by decide +kernel
  have hoffset : (inFolder "a").NeedsOffset split.splits →
      OneOffset (inFolder "a") (inFolder "/data/a") filed.disk filed.disk filed.memory.offset (some 0) := fun _ =>
    .found rfl hdetected rfl
  have hsize : AverageOptions.standard.blockSize = AverageOptions.standard.blockSize := rfl
  obtain ⟨a', ha', hav, -⟩ := average_eq_of_key hkin hload hoffset hsize hsep (congrArg Sha256.hexOf htext) ha
  exact ⟨a, a', ha, ha', hav, hweights⟩

/-! ## What a key leaves out -/

/-- The key of a call says nothing of the settings of its run. -/
theorem keyFor_of_store {r r' : Run} (h : r'.store = r.store) (operation : Cache.Operation) (files : List String)
    (q : Query) : r'.keyFor operation files q = r.keyFor operation files q := by
  rw [keyFor, keyFor, h]

/-- Two calls that use one key and have different averages without the shelf: the first on a run
that remembers nothing and with all files in one block. -/
structure Confused (r r' : Run) (memory : Memory) (q : Query) (size : Option Nat) : Prop where
  store : r'.store = r.store
  shelf : r'.shelf = r.shelf
  key : r'.keyFor .average r'.files q = r.keyFor .average r.files q
  averages : ∃ a : RunAverage Double,
    ((r.average q AverageOptions.standard.withoutShelf).run ⟨.empty [], .fresh, [], ""⟩).1 = .ok a ∧
    ∃ a' : RunAverage Double,
      ((r'.average q { AverageOptions.standard.withoutShelf with blockSize := size }).run
        ⟨.empty [], memory, [], ""⟩).1 =
        .ok a' ∧ a.average ≠ a'.average

/-- A run over the four shots in memory. -/
def inMemory : Run :=
  { Run.ofFiles "memory" (.memory (.ofList [("a", fourShots)])) ["a"] with shelf := some ⟨"work"⟩ }

/-- The run with each of its settings changed. -/
def variations : List Run :=
  [{ inMemory with aliases := .ofList [("q", "p")] },
    { inMemory with shotIndexDataset := "counter" },
    { inMemory with sourcePeriodDataset := "Other_Period" },
    { inMemory with classifier := { Classifier.standard with sourcePeriod := some 4 } },
    { inMemory with classifier := { Classifier.standard with sourceOffset := 1 } },
    { inMemory with classifier := { Classifier.standard with modulatorPeriod := 4 } },
    { inMemory with classifier := { Classifier.standard with modulatorOffset := some 1 } },
    { inMemory with classifier := { Classifier.standard with modulatorReference := "slv" } }]

/-- A single shot with a reading of so many tenths. -/
def oneShot (tenths : Nat) : ShotFile :=
  .ofList [("bunches", readingsOf [0]), ("q", .numeric ⟨[1], [Double.ofNat tenths / Double.ofNat 10]⟩)]

/-- Four files whose sums are rounded differently in blocks of two. -/
def fourFiles : Run :=
  { Run.ofFiles "four" (.memory (.ofList [("a", oneShot 0), ("b", oneShot 1), ("c", oneShot 1), ("d", oneShot 10)]))
    ["a", "b", "c", "d"] with shelf := some ⟨"work"⟩ }

/-- Each of the settings makes a difference that the key does not show, and so do an offset that is
remembered and the size of the blocks. -/
theorem average_ne_of_key : (∀ r ∈ variations, Confused inMemory r .fresh split none) ∧
    Confused inMemory inMemory ⟨some 1, []⟩ split none ∧ Confused fourFiles fourFiles .fresh (.all "q") (some 2) := by
  refine ⟨fun r hr => ?_, ⟨rfl, rfl, rfl, by decide +kernel⟩, ⟨rfl, rfl, rfl, by decide +kernel⟩⟩
  simp only [variations, List.mem_cons, List.not_mem_nil, or_false] at hr
  rcases hr with rfl | rfl | rfl | rfl | rfl | rfl | rfl | rfl
  all_goals exact ⟨rfl, rfl, keyFor_of_store rfl _ _ _, by decide +kernel⟩

end Run
end ShotTally
