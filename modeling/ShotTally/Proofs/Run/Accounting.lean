/-
What an average says of the shelf is faithful and complete, whatever lay on the shelf before: no file
comes or goes but the artifacts that it lists as saved, these are found with the files that it gives
for them, and every file of the run is either covered by an artifact listed as loaded or was sorted.
-/
import ShotTally.Proofs.Run.Growing

namespace ShotTally

open Binary (Fits)

namespace Run

variable {α : Type} [Scalar α] [Binary α] {r : Run} {shelf : Shelf} {q : Query} {opts : AverageOptions} {s s' : Scene}
  {a : RunAverage α}

/-- Whether an average is answered by the artifact over all files. -/
def RecallsWhole (α : Type) [Binary α] (r : Run) (d : Disk) (q : Query) (opts : AverageOptions) : Prop :=
  opts.useCache = true ∧ (r.held d .average (r.keyFor .average r.files q) : Option (WeightedAverage α)).isSome = true

instance (d : Disk) (q : Query) (opts : AverageOptions) : Decidable (r.RecallsWhole α d q opts) :=
  inferInstanceAs (Decidable (_ ∧ _))

/-- An average that is answered as a whole neither saves nor sorts anything. -/
theorem average_of_recallsWhole (hshelf : r.shelf = some shelf) (hwhole : r.RecallsWhole α s.disk q opts)
    (h : (r.average q opts).run s = (.ok a, s')) :
    a.cache = ⟨[], [recordOf shelf .average (r.keyFor .average r.files q) r.files]⟩ ∧ s'.disk = s.disk ∧
      s'.compiled = s.compiled := by
  obtain ⟨huse, hheld⟩ := hwhole
  obtain ⟨v, hv⟩ := Option.isSome_iff_exists.1 hheld
  rw [average_eq, if_pos huse] at h
  split at h
  · cases h
  obtain ⟨rules, _, hrun, h⟩ := exists_of_run_bind h
  obtain ⟨-, rfl⟩ := Job.of_run_lift hrun
  obtain ⟨found, s₁, hfound, h⟩ := exists_of_run_bind h
  have hcompiled := (quiet_lookUp r .average _).compiles s found s₁ hfound
  obtain ⟨hvalue, hdisk, -, -⟩ := (computes_lookUp .average _).of_run rfl rfl hfound
  -- the value was found, so the run ends here
  rw [hv] at hvalue
  cases hvalue
  cases h
  rw [recalled, hshelf]
  exact ⟨rfl, hdisk, by rw [hcompiled, List.append_nil]⟩

omit [Scalar α] in
theorem not_recallsWhole : ¬ r.RecallsWhole α s.disk q opts ↔ (opts.useCache = true →
    (r.held s.disk .average (r.keyFor .average r.files q) : Option (WeightedAverage α)) = none) := by
  unfold RecallsWhole
  simp

/-- The lists of files whose averages an average saves that is not answered as a whole: of the blocks that are not
recalled those that are wanted and hold data, and behind them all files. -/
def savedLists (α : Type) [Binary α] (r : Run) (d : Disk) (q : Query) (opts : AverageOptions) : List (List String) :=
  ((Cache.blocksOf opts.blockSize r.files).filter fun files =>
      !r.recallsBlock α d q opts files && wantsBlock opts files && files.any (r.holdsData d q)) ++
    if keepsTotal opts (Cache.blocksOf opts.blockSize r.files) then [r.files] else []

/-- The record that belongs to a list of files. -/
def recordFor (r : Run) (shelf : Shelf) (q : Query) (files : List String) : CacheRecord :=
  recordOf shelf .average (r.keyFor .average files q) files

/-- An average accounts for the shelf. -/
structure Accounts (α : Type) [Scalar α] [Binary α] (r : Run) (shelf : Shelf) (q : Query) (opts : AverageOptions)
    (s s' : Scene) (cache : CacheInfo) : Prop where
  /-- No file comes or goes or changes but at the paths in `saved`. -/
  untouched : ∀ l, (∀ x ∈ cache.saved, Disk.key l ≠ Disk.key (s.disk.spell x.path)) →
    ∀ bytes, s'.disk.at? l = some (.file bytes) ↔ s.disk.at? l = some (.file bytes)
  /-- At these paths lie artifacts that are accepted for the key of their files. -/
  stored : ∀ x ∈ cache.saved, x = r.recordFor shelf q x.files ∧ ∃ artifact : Artifact (WeightedAverage α),
    shelf.load s'.disk Cache.Operation.average.name (r.keyFor .average x.files q) = (some artifact, []) ∧
      artifact.provenance.files = x.files
  /-- The artifact over all files is all that is used when it answers. -/
  whole : r.RecallsWhole α s.disk q opts →
    cache = ⟨[], [r.recordFor shelf q r.files]⟩ ∧ s'.disk = s.disk ∧ s'.compiled = s.compiled
  /-- Otherwise blocks are recalled, the files of the others are sorted, and what is wanted is saved. -/
  parts : ¬ r.RecallsWhole α s.disk q opts →
    cache.saved = (r.savedLists α s.disk q opts).map (r.recordFor shelf q) ∧
    cache.loaded = ((Cache.blocksOf opts.blockSize r.files).filter (r.recallsBlock α s.disk q opts)).map
      (r.recordFor shelf q) ∧
    s'.compiled = s.compiled ++
      ((Cache.blocksOf opts.blockSize r.files).filter fun files => !r.recallsBlock α s.disk q opts files).flatten
  /-- Loaded or sorted, every position of the file list is covered once. -/
  covered : ∃ sorted, s'.compiled = s.compiled ++ sorted ∧ (cache.loaded.flatMap (·.files) ++ sorted).Perm r.files

/-- The blocks of one kind and those of the other are all files. -/
theorem perm_blocks (hsize : opts.blockSize ≠ some 0) (p : List String → Bool) :
    (((Cache.blocksOf opts.blockSize r.files).filter p).flatten ++
      ((Cache.blocksOf opts.blockSize r.files).filter fun files => !p files).flatten).Perm r.files := by
  have h := (List.filter_append_perm p (Cache.blocksOf opts.blockSize r.files)).flatten
  rwa [List.flatten_append, Cache.flatten_blocksOf hsize] at h

namespace Fills

variable {rules : List Rule.Predicate} {plan : ReadingPlan} {parts : List (Deposit (WeightedAverage α))}

theorem saved_eq (hf : r.Fills shelf q opts s s' a rules plan parts) :
    a.cache.saved = (r.savedLists α s.disk q opts).map (r.recordFor shelf q) := by
  have hparts : parts.map (·.record shelf .average) = (parts.map (·.files)).map (r.recordFor shelf q) := by
    rw [List.map_map]
    exact List.map_congr_left fun x hx => by rw [Function.comp_apply, Deposit.record, hf.key x hx]; rfl
  rw [hf.saved, deposits, withWhole, List.map_append, hparts, hf.files, savedLists, List.map_append,
    apply_ite (List.map _),
    apply_ite (List.map _)]
  rfl

/-- Where keys are not shared, the artifacts that were saved are found with their files. -/
theorem stored [Binary.Lawful α] (hf : r.Fills shelf q opts s s' a rules plan parts)
    (hkeys : r.KeysApart q (r.files :: Cache.blocksOf opts.blockSize r.files))
    (hfits : ∀ x ∈ r.deposits q opts parts a.average, Fits (x.artifact s.now)) {x : CacheRecord}
    (hx : x ∈ a.cache.saved) :
    x = r.recordFor shelf q x.files ∧ ∃ artifact : Artifact (WeightedAverage α),
      shelf.load s'.disk Cache.Operation.average.name (r.keyFor .average x.files q) = (some artifact, []) ∧
        artifact.provenance.files = x.files := by
  rw [hf.saved] at hx
  obtain ⟨y, hy, rfl⟩ := List.mem_map.1 hx
  obtain ⟨z, hz, hzy, hload⟩ := hf.saves.exists_load hf.keyed hfits y hy
  have hkey := (hf.of_mem hy).1
  have hsame : z.files = y.files := hkeys _ (hf.asked hz) _ (hf.asked hy) (by rw [← (hf.of_mem hz).1, hzy, hkey])
  refine ⟨?_, z.artifact s.now, ?_, hsame⟩
  · rw [Deposit.record, hkey]
    rfl
  · rw [← hload, hkey]
    rfl

end Fills

variable [Binary.Lawful α]

/-- The cache info of every average that succeeds is a faithful and complete record of what it did, whatever lay on
the shelf and whatever the options. -/
theorem average_accounts (hshelf : r.shelf = some shelf) (hsize : opts.blockSize ≠ some 0)
    (hkeys : r.KeysApart q (r.files :: Cache.blocksOf opts.blockSize r.files)) (hnow : Fits s.now)
    (hwrite : ∀ plan, r.planOn s.disk s.memory.offset q.splits = .ok plan →
      ∀ x ∈ r.averageQuestions q opts.blockSize, x.Writable α (r.store.load s.disk) plan opts.blockSize)
    (hfits : Fits a.average) (h : (r.average q opts).run s = (.ok a, s')) :
    r.Accounts α shelf q opts s s' a.cache := by
  -- either the whole run is recalled and nothing is touched, or every part has its own account
  by_cases hwhole : r.RecallsWhole α s.disk q opts
  · obtain ⟨hcache, hdisk, hcompiled⟩ := average_of_recallsWhole hshelf hwhole h
    rw [hcache]
    refine ⟨fun l _ bytes => by rw [hdisk], fun x hx => (by cases hx), fun _ => ⟨rfl, hdisk, hcompiled⟩,
      fun hnot => absurd hwhole hnot, [], by rw [hcompiled, List.append_nil], ?_⟩
    simp [recordOf]
  · obtain ⟨rules, plan, parts, hf⟩ := exists_fills hshelf hsize (not_recallsWhole.1 hwhole) h
    refine ⟨fun l hl => ?_, fun x hx => ?_, fun hw => absurd hw hwhole, fun _ => ⟨hf.saved_eq, hf.loaded, hf.compiled⟩,
      _, hf.compiled, ?_⟩
    · refine hf.saves.elsewhere fun x hx => hl (x.record shelf .average) ?_
      rw [hf.saved]
      exact List.mem_map_of_mem hx
    · exact hf.stored hkeys (hf.fits hsize hnow (hwrite plan hf.planned) hfits) hx
    -- the files recalled and the files compiled are together the files of all blocks
    · have hloaded : a.cache.loaded.flatMap (·.files) =
          ((Cache.blocksOf opts.blockSize r.files).filter (r.recallsBlock α s.disk q opts)).flatten := by
        rw [hf.loaded, List.flatMap_map, ← List.flatMap_id]
        rfl
      rw [hloaded]
      exact perm_blocks hsize _

/-- After the average of the first three files, that of all four finds the one over the first two and nothing else that
it asks for. -/
theorem held_recording {s₁ : Scene} {a : RunAverage Double}
    (hfirst : ((recording ["a", "b", "c"]).average (.all "q") (.inBlocks 2 true)).run sceneRecorded = (.ok a, s₁))
    (files : List String) (h : files ∈ (recording ["a", "b", "c", "d"]).listsOf 2) :
    ((recording ["a", "b", "c", "d"]).held s₁.disk .average
      ((recording ["a", "b", "c", "d"]).keyFor .average files (.all "q")) : Option (WeightedAverage Double)).isSome =
        decide (files = ["a", "b"]) := by
  obtain ⟨hstocked, -⟩ := stocked_average (α := Double) (shelf_recording _) Nat.two_pos vacant_recorded (by decide)
    (fun _ hplan => writable_recording hplan) hfirst
  have hkept : (recording ["a", "b", "c"]).keptLists sceneRecorded.disk (.all "q") 2 true =
      [["a", "b"], ["a", "b", "c"]] := by decide +kernel
  have hheld := isSome_held (r := recording ["a", "b", "c", "d"]) (q := .all "q") (shelf_recording _) hstocked files
  have hlists : ∀ files ∈ (recording ["a", "b", "c", "d"]).listsOf 2,
      files ∈ [["a", "b"], ["a", "b", "c"]] ↔ files = ["a", "b"] := by decide
  rw [hheld, decide_eq_decide]
  exact (mem_keptKeys_iff Nat.two_pos keysApart_grown h).trans (hkept ▸ hlists files h)

/-- The block that was recalled is listed as loaded, the other one is sorted and saved, and so is the average of all
files. -/
theorem average_accounts_recording : ∃ (s₁ s₃ : Scene) (a a' : RunAverage Double),
    ((recording ["a", "b", "c"]).average (.all "q") (.inBlocks 2 true)).run sceneRecorded = (.ok a, s₁) ∧
      ((recording ["a", "b", "c", "d"]).average (.all "q") (.inBlocks 2 true)).run
        { s₁ with journal := [], now := "" } =
        (.ok a', s₃) ∧
      (recording ["a", "b", "c", "d"]).Accounts Double ⟨"work"⟩ (.all "q") (.inBlocks 2 true)
        { s₁ with journal := [], now := "" } s₃ a'.cache ∧
      a'.cache.loaded.map (·.files) = [["a", "b"]] ∧
      a'.cache.saved.map (·.files) = [["c", "d"], ["a", "b", "c", "d"]] ∧ s₃.compiled = ["c", "d"] := by
  obtain ⟨s₁, s₃, a, a', hfirst, hs₁, hsecond, -, hfits⟩ := exists_averages_recording
  have hload : ∀ name ∈ ["a", "b", "c", "d"],
      (recording []).store.load s₁.disk name = (recording []).store.load recorded name := hs₁.loads
  have hkeys : (recording ["a", "b", "c", "d"]).KeysApart (.all "q") ((recording ["a", "b", "c", "d"]).files ::
      Cache.blocksOf (some 2) (recording ["a", "b", "c", "d"]).files) := keysApart_recording (by decide)
  have hwrite : ∀ plan, (recording ["a", "b", "c", "d"]).planOn s₁.disk s₁.memory.offset (.all "q" : Query).splits =
      .ok plan → ∀ x ∈ (recording ["a", "b", "c", "d"]).averageQuestions (.all "q") (some 2),
        x.Writable Double ((recording ["a", "b", "c", "d"]).store.load s₁.disk) plan (some 2) := by
    intro plan hplan x hx
    rw [planOn_recording hplan]
    have hasked : ∀ x ∈ (recording ["a", "b", "c", "d"]).averageQuestions (.all "q") (some 2),
        x ∈ askedRecording ∧ x.files ⊆ ["a", "b", "c", "d"] := by decide
    obtain ⟨hx, hfiles⟩ := hasked x hx
    exact (writable_askedRecording x hx).congr fun name hname => hload name (hfiles hname)
  have hnow : Fits "" := by decide
  have haccounts := average_accounts (α := Double) (s := { s₁ with journal := [], now := "" }) (shelf_recording _)
    (by decide) hkeys hnow hwrite hfits hsecond
  -- of the lists that are asked for only the first block is there
  have hwhole : ((recording ["a", "b", "c", "d"]).held s₁.disk .average
    ((recording ["a", "b", "c", "d"]).keyFor .average
      (recording ["a", "b", "c", "d"]).files (.all "q")) : Option (WeightedAverage Double)) = none := by
    have hheld := held_recording hfirst (recording ["a", "b", "c", "d"]).files List.mem_cons_self
    rwa [decide_eq_false (by decide), Option.isSome_eq_false_iff, Option.isNone_iff_eq_none] at hheld
  have hholds : ["c", "d"].any ((recording ["a", "b", "c", "d"]).holdsData s₁.disk (.all "q")) = true := by
    have hthere : (recording []).holdsData recorded (.all "q") "c" = true := by decide +kernel
    rw [List.any_eq_true]
    exact ⟨"c", by decide, (holdsData_congr (hload "c" (by decide))).trans hthere⟩
  have hblocks : Cache.blocksOf (AverageOptions.inBlocks 2 true).blockSize (recording ["a", "b", "c", "d"]).files =
      [["a", "b"], ["c", "d"]] := by decide
  obtain ⟨hsaved, hloaded, hcompiled⟩ := haccounts.parts (not_recallsWhole.2 fun _ => hwhole)
  have hab : (recording ["a", "b", "c", "d"]).recallsBlock Double s₁.disk (.all "q") (.inBlocks 2 true)
    ["a", "b"] = true :=
    (recallsBlock_inBlocks 2 true _).trans (held_recording hfirst ["a", "b"] (by decide))
  have hcd : (recording ["a", "b", "c", "d"]).recallsBlock Double s₁.disk (.all "q") (.inBlocks 2 true)
    ["c", "d"] = false :=
    (recallsBlock_inBlocks 2 true _).trans (held_recording hfirst ["c", "d"] (by decide))
  have hsavedLists : (recording ["a", "b", "c", "d"]).savedLists Double s₁.disk (.all "q") (.inBlocks 2 true) =
      [["c", "d"], ["a", "b", "c", "d"]] := by
    have htotal : keepsTotal (.inBlocks 2 true) [["a", "b"], ["c", "d"]] = true := by decide
    unfold savedLists
    rw [hblocks, List.filter_cons, List.filter_singleton, hab, hcd, hholds, htotal]
    rfl
  refine ⟨s₁, s₃, a, a', hfirst, hsecond, haccounts, ?_, ?_, ?_⟩
  · rw [hloaded, hblocks, List.filter_cons, List.filter_singleton, hab, hcd]
    rfl
  · rw [hsaved]
    show List.map _ (List.map _ (savedLists Double _ s₁.disk _ _)) = _
    rw [hsavedLists]
    rfl
  · rw [hcompiled, hblocks, List.filter_cons, List.filter_singleton, hab, hcd]
    rfl

end Run
end ShotTally
