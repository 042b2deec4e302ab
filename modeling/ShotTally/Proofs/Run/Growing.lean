/-
A run that grows between two averages in blocks: the second average recalls the full blocks of the
first that hold data, and sorts the other files, those added among them.
-/
import ShotTally.Proofs.Run.Configuration
import ShotTally.Proofs.Run.Filling

namespace ShotTally

open Binary (Fits)

namespace Run

variable {α : Type} [Scalar α] [Binary α] {r : Run} {shelf : Shelf} {q : Query} {keys : List String}

/-- An average over a stocked shelf recalls the blocks whose keys are there, and sorts the files of the others. -/
theorem average_recalls (hshelf : r.shelf = some shelf) {size : Nat} (hsize : 0 < size) {saveTotal : Bool}
    {s s' : Scene} {a : RunAverage α} (hs : shelf.Stocked (WeightedAverage α) .average keys s.disk)
    (htotal : r.keyFor .average r.files q ∉ keys) (h : (r.average q (.inBlocks size saveTotal)).run s = (.ok a, s')) :
    a.cache.loaded = ((Cache.chunks size r.files.length r.files).filter fun files =>
      r.keyFor .average files q ∈ keys).map
        (fun files => recordOf shelf .average (r.keyFor .average files q) files) ∧
      s'.compiled = s.compiled ++
        ((Cache.chunks size r.files.length r.files).filter fun files => r.keyFor .average files q ∉ keys).flatten := by
  have hheld := fun files => isSome_held (q := q) hshelf hs files
  -- the total is not on the shelf, so the blocks are looked up one by one
  have hmiss : (r.held s.disk .average (r.keyFor .average r.files q) : Option (WeightedAverage α)) = none := by
    simpa [htotal] using hheld r.files
  have hpos : (AverageOptions.inBlocks size saveTotal).blockSize ≠ some 0 := fun he =>
    absurd (Option.some.inj he) (Nat.ne_of_gt hsize)
  obtain ⟨rules, plan, parts, hf⟩ := exists_fills hshelf hpos (fun _ => hmiss) h
  have hblocks : Cache.blocksOf (AverageOptions.inBlocks size saveTotal).blockSize r.files =
      Cache.chunks size r.files.length r.files := Cache.blocksOf_of_pos hsize r.files
  have hrecalls : ∀ files, r.recallsBlock α s.disk q (.inBlocks size saveTotal) files =
      decide (r.keyFor .average files q ∈ keys) :=
      fun files => (recallsBlock_inBlocks size saveTotal files).trans (hheld files)
  have hloaded := hf.loaded
  have hcompiled := hf.compiled
  rw [hblocks] at hloaded hcompiled
  rw [hloaded, hcompiled]
  refine ⟨congrArg _ (List.filter_congr fun files _ => hrecalls files), ?_⟩
  refine congrArg (s.compiled ++ List.flatten ·) (List.filter_congr fun files _ => ?_)
  rw [hrecalls, decide_not]

/-- The same, where of the first blocks some have their keys on the shelf, and of the later ones none. -/
theorem average_recalls_first (hshelf : r.shelf = some shelf) {size : Nat} (hsize : 0 < size) {saveTotal : Bool}
    {s s' : Scene}
    {a : RunAverage α} (hs : shelf.Stocked (WeightedAverage α) .average keys s.disk) {first later : List (List String)}
    (hblocks : Cache.chunks size r.files.length r.files = first ++ later) {there : List String → Bool}
    (htotal : r.keyFor .average r.files q ∉ keys)
    (hfirst : ∀ files ∈ first, r.keyFor .average files q ∈ keys ↔ there files = true)
    (hlater : ∀ files ∈ later, r.keyFor .average files q ∉ keys)
    (h : (r.average q (.inBlocks size saveTotal)).run s = (.ok a, s')) :
    a.cache.loaded = (first.filter there).map (fun files => recordOf shelf .average (r.keyFor .average files q) files) ∧
      s'.compiled = s.compiled ++ (first.filter fun files => !there files).flatten ++ later.flatten := by
  obtain ⟨hloaded, hcompiled⟩ := average_recalls hshelf hsize hs htotal h
  rw [hblocks, List.filter_append] at hloaded hcompiled
  have hthere : ∀ files ∈ first, decide (r.keyFor .average files q ∈ keys) = there files := fun files hin =>
    Bool.eq_iff_iff.2 (decide_eq_true_iff.trans (hfirst files hin))
  have hother : ∀ files ∈ first, decide (r.keyFor .average files q ∉ keys) = !there files := fun files hin => by
    rw [decide_not, hthere files hin]
  constructor
  · have hnone : (later.filter fun files => r.keyFor .average files q ∈ keys) = [] :=
      List.filter_eq_nil_iff.2 fun files hin => by
      simpa using hlater files hin
    rw [hloaded, List.filter_congr hthere, hnone, List.append_nil]
  · have hall : (later.filter fun files => r.keyFor .average files q ∉ keys) = later :=
      List.filter_eq_self.2 fun files hin => by
      simpa using hlater files hin
    rw [hcompiled, List.filter_congr hother, hall, List.flatten_append, List.append_assoc]

/-- Files that are added come behind those of the run and are not among them. -/
theorem exists_added (r : Run) (new : List String) :
    ∃ added, (r.addFiles new).1 = { r with files := r.files ++ added } ∧
    (∀ f ∈ added, f ∉ r.files) ∧ ∀ f ∈ new, f ∉ r.files → f ∈ added := by
  induction new generalizing r with
  | nil => exact ⟨[], by rw [List.append_nil]; rfl, by simp, by simp⟩
  | cons file rest ih =>
    unfold addFiles
    by_cases hfile : r.files.contains file = true
    · rw [if_pos hfile]
      obtain ⟨added, hgrown, hapart, hnew⟩ := ih r
      refine ⟨added, hgrown, hapart, fun f hf hnot => ?_⟩
      -- the file at hand is there already
      rcases List.mem_cons.1 hf with rfl | hf
      · exact absurd (by simpa using hfile) hnot
      · exact hnew f hf hnot
    · rw [if_neg hfile]
      obtain ⟨added, hgrown, hapart, hnew⟩ := ih { r with files := r.files ++ [file] }
      refine ⟨file :: added, ?_, ?_, ?_⟩
      · rw [hgrown]
        simp
      · intro f hf hin
        rcases List.mem_cons.1 hf with rfl | hf
        · exact hfile (by simpa using hin)
        · exact hapart f hf (List.mem_append_left _ hin)
      · intro f hf hnot
        rcases List.mem_cons.1 hf with rfl | hf
        · simp
        · by_cases he : f = file
          · simp [he]
          · exact List.mem_cons_of_mem _ (hnew f hf (by simp [he, hnot]))

/-! ## After files were added -/

/-- Different lists among these have different keys. -/
def KeysApart (r : Run) (q : Query) (lists : List (List String)) : Prop :=
  ∀ x ∈ lists, ∀ y ∈ lists, r.keyFor .average x q = r.keyFor .average y q → x = y

instance (r : Run) (q : Query) (lists : List (List String)) : Decidable (r.KeysApart q lists) :=
  inferInstanceAs (Decidable (∀ x ∈ lists, ∀ y ∈ lists, _ → x = y))

/-- The lists of files that an average in blocks asks the shelf for: all files, and each block. -/
def listsOf (r : Run) (size : Nat) : List (List String) := r.files :: Cache.blocksOf (some size) r.files

section

variable {d : Disk} {size : Nat} {saveTotal : Bool} {files : List String}

/-- The blocks of a run that has grown: first the full ones that it had before, then blocks that each have one of the
files added. -/
theorem exists_blocks_grown (hsize : 0 < size) {added : List String} (hne : added ≠ []) (held : List String) :
    ∃ later, Cache.chunks size (held ++ added).length (held ++ added) =
      Cache.chunks size (held.length / size) held ++ later ∧
      later.flatten = (held ++ added).drop (held.length / size * size) ∧ ∀ block ∈ later, ∃ f ∈ block, f ∈ added := by
  have hle : held.length / size * size ≤ held.length := Nat.div_mul_le_self _ _
  have hcount : held.length / size ≤ held.length := Nat.div_le_self _ _
  have hmod := Nat.div_add_mod' held.length size
  have hlt := Nat.mod_lt held.length hsize
  refine ⟨Cache.chunks size ((held ++ added).length - held.length / size)
    ((held ++ added).drop (held.length / size * size)),
    ?_, Cache.flatten_chunks hsize ?_, fun block hb => ?_⟩
  · rw [← Cache.chunks_append hsize added hle, ← Cache.chunks_add]
    congr 1
    rw [List.length_append]
    omega
  · have hmul := Nat.le_mul_of_pos_right (held.length / size) hsize
    rw [List.length_drop]
    omega
  · rw [List.drop_append_of_le_length hle] at hb
    refine Cache.exists_mem_of_mem_chunks ?_ hne hb
    rw [List.length_drop]
    omega

/-- The lists that are kept are asked for, and hold files of the run only. -/
theorem mem_listsOf_of_mem_keptLists (hsize : 0 < size) (h : files ∈ r.keptLists d q size saveTotal) :
    files ∈ r.listsOf size ∧ ∀ f ∈ files, f ∈ r.files := by
  rw [keptLists, List.mem_append] at h
  rcases h with h | h
  · have hb := (List.mem_filter.1 h).1
    refine ⟨List.mem_cons_of_mem _ ?_, fun f hf => (Cache.sublist_of_mem_chunks hb).subset hf⟩
    rw [Cache.blocksOf_of_pos hsize]
    rw [← Cache.filter_full_chunks hsize] at hb
    exact (List.mem_filter.1 hb).1
  · split at h
    · rw [List.mem_singleton.1 h]
      exact ⟨List.mem_cons_self, fun f hf => hf⟩
    · cases h

/-- Of the full blocks those that hold data are kept: the list of all files is only kept when it is no block. -/
theorem mem_keptLists_iff (hsize : 0 < size) (h : files ∈ Cache.chunks size (r.files.length / size) r.files) :
    files ∈ r.keptLists d q size saveTotal ↔ files.any (r.holdsData d q) = true := by
  have hlength := Cache.length_of_mem_chunks (Nat.div_mul_le_self _ _) h
  have htotal : files ∉
      if saveTotal && decide (1 < (Cache.chunks size r.files.length r.files).length) then [r.files] else [] := by
    intro hin
    split at hin
    · rename_i hmore
      obtain rfl := List.mem_singleton.1 hin
      have hne : r.files ≠ [] := List.ne_nil_of_length_pos (hlength ▸ hsize)
      rw [Cache.chunks_of_length_le hne (Nat.le_of_eq hlength)] at hmore
      simp at hmore
    · cases hin
  rw [keptLists, List.mem_append, List.mem_filter]
  constructor
  · rintro (hin | hin)
    · exact hin.2
    · exact absurd hin htotal
  · exact fun hany => .inl ⟨h, hany⟩

/-- A list has a key on the shelf when it was kept. -/
theorem mem_keptKeys_iff (hsize : 0 < size) {lists : List (List String)}
    (hkeys : r.KeysApart q (r.listsOf size ++ lists)) (h : files ∈ lists) :
    r.keyFor .average files q ∈ r.keptKeys d q size saveTotal ↔ files ∈ r.keptLists d q size saveTotal := by
  refine ⟨fun hin => ?_, fun hin => List.mem_map_of_mem hin⟩
  obtain ⟨files', hin', he⟩ := List.mem_map.1 hin
  have hasked := (mem_listsOf_of_mem_keptLists hsize hin').1
  rwa [← hkeys files' (List.mem_append_left _ hasked) files (List.mem_append_right _ h) he]

/-- An average of a run that has grown, over a shelf with what an average before kept: it recalls the full blocks of
the files before that hold data, and sorts every other file. -/
theorem average_recalls_grown (hshelf : r.shelf = some shelf) (hsize : 0 < size) {added : List String}
    (hne : added ≠ []) (hapart : ∀ f ∈ added, f ∉ r.files)
    (hkeys : r.KeysApart q (r.listsOf size ++ { r with files := r.files ++ added }.listsOf size)) {s s' : Scene}
    {a : RunAverage α} (hs : shelf.Stocked (WeightedAverage α) .average (r.keptKeys d q size saveTotal) s.disk)
    (h : ({ r with files := r.files ++ added }.average q (.inBlocks size saveTotal)).run s = (.ok a, s')) :
    a.cache.loaded = ((Cache.chunks size (r.files.length / size) r.files).filter (·.any (r.holdsData d q))).map
        (fun files => recordOf shelf .average (r.keyFor .average files q) files) ∧
      s'.compiled = s.compiled ++
        ((Cache.chunks size (r.files.length / size) r.files).filter fun files =>
          !files.any (r.holdsData d q)).flatten ++
        (r.files ++ added).drop (r.files.length / size * size) := by
  obtain ⟨later, hblocks, hflatten, hlater⟩ := exists_blocks_grown hsize hne r.files
  have hlists : ∀ files, files ∈ { r with files := r.files ++ added }.listsOf size ↔ files = r.files ++ added ∨
      files ∈ Cache.chunks size (r.files.length / size) r.files ∨ files ∈ later := by
    intro files
    rw [listsOf, Cache.blocksOf_of_pos hsize, List.mem_cons, hblocks, List.mem_append]
  -- what was kept has none of the files added
  have hmiss : ∀ files ∈ { r with files := r.files ++ added }.listsOf size, (∃ f ∈ files, f ∈ added) →
      r.keyFor .average files q ∉ r.keptKeys d q size saveTotal := by
    rintro files hin ⟨f, hf, hfadded⟩ hthere
    have hkept := (mem_keptKeys_iff hsize hkeys hin).1 hthere
    exact hapart f hfadded ((mem_listsOf_of_mem_keptLists hsize hkept).2 f hf)
  have hhead : ∃ f ∈ r.files ++ added, f ∈ added := ⟨_, List.mem_append_right _ (List.head_mem hne), List.head_mem hne⟩
  have hfirst : ∀ files ∈ Cache.chunks size (r.files.length / size) r.files,
      r.keyFor .average files q ∈ r.keptKeys d q size saveTotal ↔ files.any (r.holdsData d q) = true := fun files hin =>
    (mem_keptKeys_iff hsize hkeys ((hlists files).2 (.inr (.inl hin)))).trans (mem_keptLists_iff hsize hin)
  obtain ⟨hloaded, hcompiled⟩ := average_recalls_first (r := { r with files := r.files ++ added }) hshelf hsize hs
    hblocks (hmiss _ ((hlists _).2 (.inl rfl)) hhead) hfirst
    (fun files hin => hmiss files ((hlists files).2 (.inr (.inr hin))) (hlater files hin)) h
  exact ⟨hloaded, by rw [hcompiled, hflatten]⟩

end

variable [Binary.Lawful α]

/-- Between two averages in blocks, the first of which starts from a vacant shelf, files are added to a run. The second
one recalls the full blocks of the first that hold data, and sorts every other file of the run once, in order; the plan is
settled, so that no file is looked at for the offset of the modulator. -/
theorem average_grown (hshelf : r.shelf = some shelf) {size : Nat} (hsize : 0 < size) {saveTotal : Bool}
    {new : List String}
    {s s₁ s₂ s₃ : Scene} {a a' : RunAverage α} (hvacant : shelf.Vacant .average s.disk) (hnow : Fits s.now)
    (hwrite : ∀ plan, r.planOn s.disk s.memory.offset q.splits = .ok plan →
      ∀ x ∈ r.averageQuestions q (some size), x.Writable α (r.store.load s.disk) plan (some size))
    (hkeys : r.KeysApart q (r.listsOf size ++ (r.addFiles new).1.listsOf size))
    (hfirst : (r.average q (.inBlocks size saveTotal)).run s = (.ok a, s₁)) (hnew : ∃ f ∈ new, f ∉ r.files)
    (hdisk : s₂.disk = s₁.disk) (hoffset : s₂.memory.offset = s₁.memory.offset)
    (hsecond : ((r.addFiles new).1.average q (.inBlocks size saveTotal)).run s₂ = (.ok a', s₃)) :
    a'.cache.loaded = ((Cache.chunks size (r.files.length / size) r.files).filter (·.any (r.holdsData s.disk q))).map
        (fun files => recordOf shelf .average (r.keyFor .average files q) files) ∧
      s₃.compiled = s₂.compiled ++
        ((Cache.chunks size (r.files.length / size) r.files).filter fun files =>
          !files.any (r.holdsData s.disk q)).flatten ++
        (r.addFiles new).1.files.drop (r.files.length / size * size) ∧
      ((r.addFiles new).1.settledPlan s₂.memory.offset q.splits).isSome := by
  obtain ⟨hstocked, hsettled⟩ := stocked_average hshelf hsize hvacant hnow hwrite hfirst
  obtain ⟨added, hgrown, hapart, hadded⟩ := r.exists_added new
  have hne : added ≠ [] := by
    obtain ⟨f, hf, hnot⟩ := hnew
    exact List.ne_nil_of_mem (hadded f hf hnot)
  -- the second average finds the stock of the first, and the new files are in none of its blocks
  rw [hgrown] at hkeys hsecond ⊢
  rw [← hdisk] at hstocked
  obtain ⟨hloaded, hcompiled⟩ := average_recalls_grown hshelf hsize hne hapart hkeys hstocked hsecond
  refine ⟨hloaded, hcompiled, ?_⟩
  rw [hoffset]
  exact hsettled

/-- On common ground with the offset configured an average is what it is without the shelf, and leaves the ground
sound. -/
theorem run_average_of_kin {r₀ : Run} {o : Int} (opts : AverageOptions) {files : List String} {d : Disk}
    {good : Disk → Prop} {involved : Question → Prop}
    (ht : (Session.kinGround r₀ o opts.blockSize files d good involved).Trusted α) (hkin : r₀.Kin r)
    (hheld : r.files ⊆ files) (ho : r₀.classifier.modulatorOffset = some o)
    (hinvolved : ∀ x ∈ r.averageQuestions q opts.blockSize, involved x)
    {s : Scene} (hn : Fits s.now) {v : WeightedAverage α} (hv : r.averageOn d none q opts.blockSize = .ok v)
    (hs : (Session.kinGround r₀ o opts.blockSize files d good involved).Sound α
      (fun _ => some (r₀.planWith o)) s.disk) :
    ∃ (a : RunAverage α) (s' : Scene), (r.average q opts).run s = (.ok a, s') ∧ a.average = v ∧
      (Session.kinGround r₀ o opts.blockSize files d good involved).Sound α
        (fun _ => some (r₀.planWith o)) s'.disk := by
  have hconfigured : r.classifier.modulatorOffset = some o := by rw [hkin.classifier, ho]
  -- the offset is configured, so the plan does not depend on what was remembered
  have hplan : ∀ offset, r.settledPlan offset = fun _ => some (r₀.planWith o) := fun offset => by
    rw [← hkin.planWith]
    exact funext (settledPlan_of_configured hconfigured)
  have hserves : (Session.kinGround r₀ o opts.blockSize files d good involved).Serves r := by
    refine ⟨⟨hkin.store, hheld⟩, fun offset splits plan hp => ?_⟩
    rw [hplan] at hp
    exact (Option.some.inj hp).symm
  have hload : ∀ file ∈ r.files, r.store.load s.disk file = r.store.load d file := fun file hfile =>
    (hs.load_eq hserves.toReads file hfile).trans (by rw [hkin.store]; rfl)
  obtain ⟨answer, s', hrun, hanswer, hs', -⟩ := Ground.run_average ht hserves rfl (fun _ => ⟨hkin.shelf, hinvolved⟩)
    (fun _ => hn) (by rwa [hplan])
  rw [averageOn_congr (planOn_of_configured hconfigured _) hload, hv] at hanswer
  rw [hplan] at hs'
  obtain ⟨a, rfl, ha⟩ := map_eq_ok.1 hanswer
  exact ⟨a, s', hrun, ha, hs'⟩

/-! ## A run that grows on the disk -/

/-- A run over files in a folder of raw data. Its shelf is the folder `work` beside the raw data. -/
def recording (files : List String) : Run :=
  { Run.ofFiles "recording" (.folder "rawdata/run_07") files with
    classifier := { Classifier.standard with modulatorOffset := some 0 } }

/-- Four files with two shots each, and nothing else. -/
def recorded : Disk :=
  ["a", "b", "c", "d"].foldl (fun d file => d.put ["rawdata", "run_07", file] (.file Session.twoShots.toBytes))
    (((Disk.empty []).put ["rawdata"] .folder).put ["rawdata", "run_07"] .folder)

theorem shelf_recording (files : List String) : (recording files).shelf = some ⟨"work"⟩ := by
  have hwork : Cache.workFolder "rawdata/run_07" = "work" := by decide +kernel
  show some (Shelf.mk (Cache.workFolder "rawdata/run_07")) = _
  rw [hwork]

theorem plain_work : Path.Plain (Shelf.root ⟨"work"⟩) := by decide

theorem kept_recorded : Shelf.Kept ⟨"work"⟩ recorded := by
  have hput : ∀ {d : Disk} (h : Shelf.Kept ⟨"work"⟩ d) {location : List String},
      location ≠ [] → Shelf.Apart ⟨"work"⟩ location → ∀ e, Shelf.Kept ⟨"work"⟩ (d.put location e) :=
    fun h _ hne hl e => h.put_apart plain_work hne hl e
  have hfolders := hput (hput (Shelf.kept_empty _) (by decide) (by decide : Shelf.Apart ⟨"work"⟩ ["rawdata"]) .folder)
    (by decide) (by decide : Shelf.Apart ⟨"work"⟩ ["rawdata", "run_07"]) .folder
  unfold recorded
  simp only [List.foldl_cons, List.foldl_nil]
  exact hput (hput (hput (hput hfolders (by decide) (by decide) _) (by decide) (by decide) _) (by decide) (by decide) _)
    (by decide) (by decide) _

theorem unmade_recorded : recorded.at? ["work"] = none := by decide +kernel

theorem folder_recording : "rawdata/run_07" = "/".intercalate ["rawdata", "run_07"] := by decide

/-- The shelf can be depended on: the data are not in its folder. -/
theorem dependable_recording {files : List String} (h : ∀ file ∈ files, Path.Plain file) :
    Shelf.Dependable ⟨"work"⟩ (.folder "rawdata/run_07") files (Shelf.Kept ⟨"work"⟩) :=
  Shelf.dependable_of_folder plain_work folder_recording (by decide) (by decide) h

/-- What is asked before and after the fourth file is added. -/
def askedRecording : List Question :=
  [["a", "b", "c"], ["a", "b"], ["c"], ["a", "b", "c", "d"], ["c", "d"]].map fun files => ⟨.average, files, .all "q"⟩

theorem nodup_askedRecording : (askedRecording.map (·.key (some "rawdata/run_07"))).Nodup := by decide +kernel

theorem keysApart_recording {files : List String} {lists : List (List String)}
    (h : ∀ files ∈ lists, (⟨.average, files, .all "q"⟩ : Question) ∈ askedRecording) :
    (recording files).KeysApart (.all "q") lists := by
  intro x hx y hy hkey
  have hsame := List.inj_on_of_nodup_map nodup_askedRecording (h x hx) (h y hy) hkey
  exact congrArg Question.files hsame

theorem writable_askedRecording : ∀ x ∈ askedRecording,
    x.Writable Double ((recording []).store.load recorded) ((recording []).planWith 0) (some 2) := by
  decide +kernel

/-- The ground of the runs over these files in blocks of two. -/
def groundRecording : Ground :=
  Session.kinGround (recording []) 0 (some 2) ["a", "b", "c", "d"] recorded (Shelf.Kept ⟨"work"⟩) (· ∈ askedRecording)

theorem trusted_groundRecording : groundRecording.Trusted Double :=
  Session.trusted_kinGround (shelf_recording []) (dependable_recording (by decide)) (by decide)
    (Shelf.separate_of_nodup askedRecording (fun _ hx => hx) nodup_askedRecording) (by decide) writable_askedRecording

theorem sound_groundRecording : groundRecording.Sound Double (fun _ => some ((recording []).planWith 0)) recorded := by
  refine Ground.sound_of_empty kept_recorded (fun _ _ => rfl) fun shelf hshelf => ?_
  obtain rfl : ⟨"work"⟩ = shelf := Option.some.inj ((shelf_recording []).symm.trans hshelf)
  exact Shelf.empty_of_unmade plain_work kept_recorded unmade_recorded

/-- The plan of these runs is settled, whatever the scene. -/
theorem planOn_recording {files : List String} {d : Disk} {offset : Option Int} {splits : Splits} {plan : ReadingPlan}
    (h : (recording files).planOn d offset splits = .ok plan) : plan = (recording []).planWith 0 := by
  rw [planOn_of_settled (settledPlan_of_configured rfl _)] at h
  exact (Except.ok.inj h).symm

/-- The scene before the first average. -/
def sceneRecorded : Scene := ⟨recorded, .fresh, [], ""⟩

/-- In blocks of two the average of the first three files is followed by that of all four. -/
theorem exists_averages_recording : ∃ (s₁ s₃ : Scene) (a a' : RunAverage Double),
    ((recording ["a", "b", "c"]).average (.all "q") (.inBlocks 2 true)).run sceneRecorded = (.ok a, s₁) ∧
      groundRecording.Sound Double (fun _ => some ((recording []).planWith 0)) s₁.disk ∧
      ((recording ["a", "b", "c", "d"]).average (.all "q") (.inBlocks 2 true)).run
        { s₁ with journal := [], now := "" } =
        (.ok a', s₃) ∧ Fits a.average ∧ Fits a'.average := by
  have hnow : Fits "" := by decide
  -- both averages succeed, as they do without the shelf
  obtain ⟨v, hv, hfits⟩ : ∃ v : WeightedAverage Double,
      (recording ["a", "b", "c"]).averageOn recorded none (.all "q") (some 2) = .ok v ∧ Fits v := by decide +kernel
  obtain ⟨v', hv', hfits'⟩ : ∃ v : WeightedAverage Double,
      (recording ["a", "b", "c", "d"]).averageOn recorded none (.all "q") (some 2) = .ok v ∧ Fits v := by decide +kernel
  obtain ⟨a, s₁, hfirst, rfl, hs₁⟩ := run_average_of_kin (r := recording ["a", "b", "c"]) (q := .all "q")
    (.inBlocks 2 true) (s := sceneRecorded) trusted_groundRecording rfl (by decide) rfl (by decide) hnow hv
    sound_groundRecording
  obtain ⟨a', s₃, hsecond, rfl, -⟩ := run_average_of_kin (r := recording ["a", "b", "c", "d"]) (q := .all "q")
    (.inBlocks 2 true) (s := { s₁ with journal := [], now := "" }) trusted_groundRecording rfl
      (by decide) rfl (by decide)
    hnow hv' hs₁
  exact ⟨s₁, s₃, a, a', hfirst, hs₁, hsecond, hfits, hfits'⟩

theorem writable_recording {plan : ReadingPlan}
    (hplan : (recording ["a", "b", "c"]).planOn sceneRecorded.disk sceneRecorded.memory.offset
      (.all "q" : Query).splits =
      .ok plan) : ∀ x ∈ (recording ["a", "b", "c"]).averageQuestions (.all "q") (some 2),
    x.Writable Double ((recording ["a", "b", "c"]).store.load sceneRecorded.disk) plan (some 2) := by
  intro x hx
  rw [planOn_recording hplan]
  have hasked : ∀ x ∈ (recording ["a", "b", "c"]).averageQuestions (.all "q") (some 2), x ∈ askedRecording := by decide
  exact writable_askedRecording x (hasked x hx)

theorem vacant_recorded : Shelf.Vacant ⟨"work"⟩ .average sceneRecorded.disk :=
  Shelf.vacant_of_unmade plain_work kept_recorded unmade_recorded .average

theorem keysApart_grown : (recording ["a", "b", "c"]).KeysApart (.all "q") ((recording ["a", "b", "c"]).listsOf 2 ++
    (recording ["a", "b", "c", "d"]).listsOf 2) := keysApart_recording (by decide)

/-- The block of two files is recalled. The third file was in a block that was not full: it is sorted again, with the
fourth one. -/
theorem average_grown_recording : ∃ (s₁ s₃ : Scene) (a a' : RunAverage Double),
    ((recording ["a", "b", "c"]).average (.all "q") (.inBlocks 2 true)).run sceneRecorded = (.ok a, s₁) ∧
      (((recording ["a", "b", "c"]).addFiles ["c", "d"]).1.average (.all "q") (.inBlocks 2 true)).run
        { s₁ with journal := [], now := "" } = (.ok a', s₃) ∧
      a'.cache.loaded =
        [recordOf ⟨"work"⟩ .average ((recording ["a", "b", "c"]).keyFor .average ["a", "b"] (.all "q")) ["a", "b"]] ∧
      s₃.compiled = ["c", "d"] := by
  obtain ⟨s₁, s₃, a, a', hfirst, -, hsecond, -⟩ := exists_averages_recording
  have hgrown : ((recording ["a", "b", "c"]).addFiles ["c", "d"]).1 = recording ["a", "b", "c", "d"] := rfl
  rw [← hgrown] at hsecond
  have hkeys : (recording ["a", "b", "c"]).KeysApart (.all "q") ((recording ["a", "b", "c"]).listsOf 2 ++
      ((recording ["a", "b", "c"]).addFiles ["c", "d"]).1.listsOf 2) := hgrown ▸ keysApart_grown
  have hnow : Fits sceneRecorded.now := by decide
  have hnew : ∃ f ∈ ["c", "d"], f ∉ (recording ["a", "b", "c"]).files := ⟨"d", by decide, by decide⟩
  have hdisk : ({ s₁ with journal := [], now := "" } : Scene).disk = s₁.disk := rfl
  obtain ⟨hloaded, hcompiled, -⟩ := average_grown (α := Double) (shelf_recording _) Nat.two_pos vacant_recorded hnow
    (fun _ hplan => writable_recording hplan) hkeys hfirst hnew hdisk rfl hsecond
  have hfull : Cache.chunks 2 ((recording ["a", "b", "c"]).files.length / 2) (recording ["a", "b", "c"]).files =
      [["a", "b"]] := by decide
  have hholds : ["a", "b"].any ((recording ["a", "b", "c"]).holdsData sceneRecorded.disk (.all "q")) = true := by
    decide +kernel
  have hrest : ((recording ["a", "b", "c"]).addFiles ["c", "d"]).1.files.drop
      ((recording ["a", "b", "c"]).files.length / 2 * 2) = ["c", "d"] := by decide
  rw [hfull, List.filter_singleton, hholds] at hloaded hcompiled
  rw [hrest] at hcompiled
  exact ⟨s₁, s₃, a, a', hfirst, hsecond, hloaded, hcompiled⟩

end Run
end ShotTally
