/-
Calls that are interrupted while they save. The artifact that was cut short is missed by the next call, which has
the outcome that it has without the shelf, and saves the artifact again.
-/
import ShotTally.Proofs.Cache.Cutting
import ShotTally.Proofs.Run.Asking

namespace ShotTally

open Binary (Fits)

/-! ## Calls that use the shelf -/

/-- A call that may recall a value from the shelf and keep it there. -/
structure Inquiry (β γ : Type) where
  operation : Cache.Operation
  /-- The key of what is kept for some files. -/
  key : List String → String
  call : Job γ
  /-- The same call when it leaves the shelf alone. -/
  bare : Job γ
  value : γ → β
  cache : γ → CacheInfo
  /-- Whether the artifact over all files answers the call. -/
  whole : Disk → Prop

namespace Inquiry

variable {β γ : Type} [Binary β]

/-- A call passes over the artifact at a path: it has the outcome that it has without the shelf, and does not list
the artifact as loaded. -/
structure Overlooks (i : Inquiry β γ) (path : String) (s : Scene) : Prop where
  agrees : (i.call.run s).1.map i.value = (i.bare.run s).1.map i.value
  unread : ∀ c s', i.call.run s = (.ok c, s') → ∀ y ∈ (i.cache c).loaded, y.path ≠ path

/-- A call has a value, saves one with the files and the key given, and this is found afterwards. -/
def SavesAgain (i : Inquiry β γ) (shelf : Shelf) (x : Deposit β) (v : β) (s : Scene) : Prop :=
  ∃ c s', i.call.run s = (.ok c, s') ∧ i.value c = v ∧ x.record shelf i.operation ∈ (i.cache c).saved ∧
    shelf.load s'.disk i.operation.name x.key = (some (x.artifact s.now), [])

/-- What a call saves may be cut short at any point. After some of the values were saved and the artifact of one of
them was cut, the same call passes over that artifact; if it was the last one, or the artifact over all files does not
answer the call, then the call has the value that it had before and saves the artifact again. -/
def Recovers [Binary.Lawful β] (i : Inquiry β γ) (shelf : Shelf) (asks : Scene → Prop) : Prop :=
  ∀ s s' c, asks s → i.call.run s = (.ok c, s') → ∃ deposits : List (Deposit β),
    shelf.Saves i.operation s.now s.disk deposits s'.disk ∧
    (i.cache c).saved = deposits.map (·.record shelf i.operation) ∧
    (∀ x ∈ deposits, x.key = i.key x.files ∧ Fits (x.artifact s.now)) ∧
    ∀ before x after rest, deposits = before ++ x :: after ++ rest →
      ∀ d, shelf.Saves i.operation s.now s.disk (before ++ x :: after) d →
      ∀ s₂ : Scene, shelf.Cuts β i.operation.name x.key d s₂.disk →
        s₂.memory.offset = s.memory.offset ∨ s₂.memory.offset = s'.memory.offset → Fits s₂.now →
        i.Overlooks (shelf.path i.operation.name x.key) s₂ ∧
          (after = [] ∨ ¬ i.whole s₂.disk → i.SavesAgain shelf x (i.value c) s₂)

end Inquiry

namespace Run

variable {α : Type} [Scalar α] [Binary α] {r : Run} {shelf : Shelf} {good : Disk → Prop} {q : Query}
  {opts : AverageOptions} {s s' s₂ : Scene} {d d' : Disk}

def averaging (α : Type) [Scalar α] [Binary α] (r : Run) (q : Query) (opts : AverageOptions) :
    Inquiry (WeightedAverage α) (RunAverage α) :=
  ⟨.average, fun files => r.keyFor .average files q, r.average q opts, r.average q opts.withoutShelf,
    (·.average), (·.cache),
    (r.RecallsWhole α · q opts)⟩

/-- Whether a collection is answered by the artifact over all files. -/
def RecallsRows (α : Type) [Binary α] (r : Run) (d : Disk) (q : Query) (opts : AverageOptions) : Prop :=
  opts.useCache = true ∧ (r.held d .collect (r.keyFor .collect r.files q) : Option (CollectedBuckets α)).isSome = true

def collecting (α : Type) [Scalar α] [Binary α] (r : Run) (q : Query) (opts : AverageOptions) :
    Inquiry (CollectedBuckets α) (RunCollection α) :=
  ⟨.collect, fun files => r.keyFor .collect files q, r.collect q opts, r.collect q opts.withoutShelf,
    (·.buckets), (·.cache),
    (r.RecallsRows α · q opts)⟩

/-! ## What is held afterwards -/

section

variable {β : Type} [Binary β] (hshelf : r.shelf = some shelf)

include hshelf

omit [Scalar α] [Binary α] in
/-- What was left alone is held as before. -/
theorem held_of_leftAlone {operation operation' : Cache.Operation} {keys : List String}
    (h : shelf.LeftAlone r.store r.files good operation keys d d') {files : List String}
    (hne : ¬ (operation' = operation ∧ r.keyFor operation' files q ∈ keys)) :
    (r.held d' operation' (r.keyFor operation' files q) : Option β) =
      r.held d operation' (r.keyFor operation' files q) := by
  have hread := h.read operation' _ hne
  rw [held_of_shelf hshelf, held_of_shelf hshelf, keyFor, Cache.key, Shelf.load_congr hread]

omit [Scalar α] [Binary α] in
/-- After saving, one of the values that were saved under a key is held. -/
theorem held_of_saves [Binary.Lawful β] {operation : Cache.Operation} {now : String} {done : List (Deposit β)}
    (h : shelf.Saves operation now d done d') (hk : ∀ y ∈ done, y.Keyed) (hf : ∀ y ∈ done, Fits (y.artifact now))
    {y : Deposit β} (hy : y ∈ done) : ∃ z ∈ done, z.key = y.key ∧ r.held d' operation y.key = some z.value := by
  obtain ⟨z, hz, hzy, hload⟩ := h.exists_load hk hf y hy
  exact ⟨z, hz, hzy, by rw [held_of_shelf hshelf, hload]; rfl⟩

omit [Scalar α] [Binary α] in
/-- An artifact that was cut is not held any more. -/
theorem held_of_cuts [Binary.Lawful β] [Binary.Delimiting β] {operation : Cache.Operation} {key : String}
    (h : shelf.Cuts β operation.name key d d') : (r.held d' operation key : Option β) = none := by
  rw [held_of_shelf hshelf, h.load_eq]
  rfl

end

/-! ## Averages -/

/-- What an average lists as loaded was held. -/
theorem exists_held_of_loaded (hshelf : r.shelf = some shelf) (hsize : opts.blockSize ≠ some 0) {a : RunAverage α}
    (h : (r.average q opts).run s = (.ok a, s')) {y : CacheRecord} (hy : y ∈ a.cache.loaded) :
    ∃ files, ∃ v : WeightedAverage α, y.path = shelf.path Cache.Operation.average.name (r.keyFor .average files q) ∧
      r.held s.disk .average (r.keyFor .average files q) = some v := by
  by_cases hwhole : r.RecallsWhole α s.disk q opts
  · obtain ⟨hcache, -⟩ := average_of_recallsWhole hshelf hwhole h
    obtain ⟨v, hv⟩ := Option.isSome_iff_exists.1 hwhole.2
    rw [hcache] at hy
    obtain rfl := List.mem_singleton.1 hy
    exact ⟨r.files, v, by rw [recordOf], hv⟩
  · obtain ⟨rules, plan, parts, hf⟩ := exists_fills hshelf hsize (not_recallsWhole.1 hwhole) h
    rw [hf.loaded] at hy
    obtain ⟨files, hfiles, rfl⟩ := List.mem_map.1 hy
    have hrecalls := (List.mem_filter.1 hfiles).2
    unfold recallsBlock at hrecalls
    rw [Bool.and_eq_true] at hrecalls
    obtain ⟨v, hv⟩ := Option.isSome_iff_exists.1 hrecalls.2
    exact ⟨files, v, by rw [recordOf], hv⟩

variable [Binary.Lawful α]

namespace Fills

variable {a : RunAverage α} {rules : List Rule.Predicate} {plan : ReadingPlan}
    {parts : List (Deposit (WeightedAverage α))}
  (hf : r.Fills shelf q opts s s' a rules plan parts) (ha : r.AsksAverage α good q opts.blockSize s)

include hf ha

/-- What is held after some values were saved was held before or is one of them. -/
theorem held_saved (hshelf : r.shelf = some shelf) (hd : shelf.Dependable r.store r.files good)
    {done : List (Deposit (WeightedAverage α))} (hdone : ∀ y ∈ done, y ∈ r.deposits q opts parts a.average)
    (hsaves : shelf.Saves .average s.now s.disk done d) {files : List String} {v : WeightedAverage α}
    (hheld : r.held d .average (r.keyFor .average files q) = some v) :
    (∀ y ∈ done, y.key ≠ r.keyFor .average files q) ∧ r.held s.disk .average (r.keyFor .average files q) = some v ∨
      ∃ y ∈ done, y.key = r.keyFor .average files q ∧ y.value = v := by
  have hkeyed : ∀ y ∈ done, y.Keyed := fun y hy => hf.keyed y (hdone y hy)
  by_cases hsaved : ∃ y ∈ done, y.key = r.keyFor .average files q
  · obtain ⟨y, hy, hkey⟩ := hsaved
    obtain ⟨z, hz, hzy, hlast⟩ := held_of_saves hshelf hsaves hkeyed (fun y hy => hf.fits_deposits ha y (hdone y hy)) hy
    rw [← hkey, hlast] at hheld
    exact .inr ⟨z, hz, hzy.trans hkey, Option.some.inj hheld⟩
  · have hnot : ∀ y ∈ done, y.key ≠ r.keyFor .average files q := fun y hy hkey => hsaved ⟨y, hy, hkey⟩
    refine .inl ⟨hnot, ?_⟩
    rw [← hheld]
    refine (held_of_leftAlone hshelf (hd.leftAlone ha.good hkeyed hsaves) fun hk => ?_).symm
    obtain ⟨y, hy, hkey⟩ := List.mem_map.1 hk.2
    exact hnot y hy hkey

/-- After some values were saved the run may ask again. -/
theorem asks_saved (hshelf : r.shelf = some shelf) (hd : shelf.Dependable r.store r.files good)
    {done : List (Deposit (WeightedAverage α))} (hdone : ∀ y ∈ done, y ∈ r.deposits q opts parts a.average)
    (hsaves : shelf.Saves .average s.now s.disk done s₂.disk) (hsame : r.SameData q s s₂) (hnow : Fits s₂.now) :
    r.AsksAverage α good q opts.blockSize s₂ := by
  refine hsame.asksAverage (hd.leftAlone ha.good (fun y hy => hf.keyed y (hdone y hy)) hsaves).good hnow ha
    fun files hfiles v hheld => ?_
  rcases hf.held_saved ha hshelf hd hdone hsaves hheld with ⟨-, hheld⟩ | ⟨y, hy, hkey, rfl⟩
  · exact .inl hheld
  · have hsame : y.files = files := ha.apart _ (hf.asked (hdone y hy)) _ hfiles
      (by rw [← (hf.of_mem (hdone y hy)).1, hkey])
    rw [← hsame]
    exact .inr (hf.comesTo ha (hdone y hy))

omit [Binary.Lawful α] ha in
/-- The average over all files is saved last. -/
theorem not_whole_before (hsize : opts.blockSize ≠ some 0) {before after : List (Deposit (WeightedAverage α))}
    {x : Deposit (WeightedAverage α)} (hsplit : r.deposits q opts parts a.average = before ++ x :: after) :
    ∀ y ∈ before, y.files ≠ r.files := by
  intro y hy hwhole
  -- at most one value is saved behind the blocks, so what comes before another is a block
  have hparts : before <+: parts := by
    refine List.prefix_of_prefix_length_le ⟨x :: after, hsplit.symm⟩ (List.prefix_append _ _) ?_
    have hlength := congrArg List.length hsplit
    unfold deposits withWhole at hlength
    rw [List.length_append, List.length_append, List.length_cons] at hlength
    split at hlength <;> simp at hlength <;> omega
  have hmem : y.files ∈ parts.map (·.files) := List.mem_map_of_mem (hparts.subset hy)
  have hcount : (parts.map (·.files)).length ≤ (Cache.blocksOf opts.blockSize r.files).length := by
    rw [hf.files]
    exact List.length_filter_le _ _
  rw [hf.files, List.mem_filter] at hmem
  obtain ⟨hblock, hwanted⟩ := hmem
  rw [hwhole] at hblock
  rw [Cache.blocksOf_block hsize hblock, List.length_map, List.length_singleton] at hcount
  -- a block that is all files is the only one, and then the average over all files is not saved again
  rw [Bool.and_eq_true, Bool.and_eq_true] at hwanted
  have hkeeps : keepsTotal opts (Cache.blocksOf opts.blockSize r.files) = false := by
    rw [Cache.blocksOf_block hsize hblock]
    unfold keepsTotal
    cases hb : opts.blockSize with
    | none =>
      have hwants := hwanted.1.2
      unfold wantsBlock at hwants
      rw [hb] at hwants
      simp at hwants
    | some _ => simp
  have hlength := congrArg List.length hsplit
  unfold deposits withWhole at hlength
  rw [hkeeps] at hlength
  have hpos := List.length_pos_of_mem hy
  simp at hlength
  omega

/-- A value that was saved and is not held any more is saved again. -/
theorem savesAgain (hshelf : r.shelf = some shelf) (hd : shelf.Dependable r.store r.files good)
    {x : Deposit (WeightedAverage α)} (hx : x ∈ r.deposits q opts parts a.average)
    (hrun : (r.average q opts).run s = (.ok a, s')) (ha₂ : r.AsksAverage α good q opts.blockSize s₂)
    (hsame : r.SameData q s s₂) (hnone : (r.held s₂.disk .average x.key : Option (WeightedAverage α)) = none)
    (hwhole : ¬ r.RecallsWhole α s₂.disk q opts) : (r.averaging α q opts).SavesAgain shelf x a.average s₂ := by
  obtain ⟨o, _, hrun', ho⟩ := ha.run_average hshelf hd
  obtain ⟨rfl, -⟩ := Prod.mk.inj (hrun'.symm.trans hrun)
  obtain ⟨o₂, s₃, hrun₂, ho₂⟩ := ha₂.run_average hshelf hd
  rw [outcome_average, hsame.averageOn_eq, ← outcome_average r q opts s, ← ho] at ho₂
  obtain ⟨a₂, rfl, hvalue⟩ := map_eq_ok.1 ho₂
  obtain ⟨rules₂, plan₂, parts₂, hf₂⟩ := exists_fills hshelf ha.positive (not_recallsWhole.1 hwhole) hrun₂
  obtain ⟨x₂, hx₂, hfiles⟩ : ∃ x₂ ∈ r.deposits q opts parts₂ a₂.average, x₂.files = x.files := by
    rcases List.mem_append.1 hx with hpart | htotal
    · have hmem : x.files ∈ parts.map (·.files) := List.mem_map_of_mem hpart
      have hmem₂ : x.files ∈ parts₂.map (·.files) := by
        rw [hf.files, List.mem_filter, Bool.and_eq_true, Bool.and_eq_true] at hmem
        have hrecalls : r.recallsBlock α s₂.disk q opts x.files = false := by
          unfold recallsBlock
          rw [← hf.key x hpart, hnone, Option.isSome_none, Bool.and_false]
        rw [hf₂.files, List.mem_filter, Bool.and_eq_true, Bool.and_eq_true, hrecalls,
          hsame.any_holdsData_eq (Cache.subset_of_mem_blocksOf hmem.1)]
        exact ⟨hmem.1, ⟨rfl, hmem.2.1.2⟩, hmem.2.2⟩
      obtain ⟨x₂, hx₂, hfiles⟩ := List.mem_map.1 hmem₂
      exact ⟨x₂, List.mem_append_left _ hx₂, hfiles⟩
    · split at htotal
      · rename_i hkeeps
        obtain rfl := List.mem_singleton.1 htotal
        refine ⟨⟨r.keyFor .average r.files q, r.files, a₂.average⟩, List.mem_append_right _ ?_, rfl⟩
        rw [if_pos hkeeps]
        exact List.mem_singleton_self _
      · cases htotal
  -- the same files have the same key and come to the same
  obtain rfl : x₂ = x := Deposit.ext (by rw [(hf₂.of_mem hx₂).1, (hf.of_mem hx).1, hfiles]) hfiles
    (((hsame.comesTo_iff (subset_of_asked (hf₂.asked hx₂))).1 (hf₂.comesTo ha₂ hx₂)).unique (hfiles ▸ hf.comesTo ha hx))
  obtain ⟨y, hy, hkey, hload⟩ := hf₂.saves.exists_load hf₂.keyed (hf₂.fits_deposits ha₂) x₂ hx₂
  obtain rfl := hf₂.eq_of_key ha₂ hy hx₂ hkey
  refine ⟨a₂, s₃, hrun₂, hvalue, ?_, hload⟩
  show _ ∈ a₂.cache.saved
  rw [hf₂.saved]
  exact List.mem_map_of_mem hx₂

end Fills

/-! ## Collections -/

section

variable {c : RunCollection α}

/-- The rows as they are saved, if they are. -/
def rowsSaved (r : Run) (q : Query) (opts : AverageOptions) (c : CollectedBuckets α) :
    List (Deposit (CollectedBuckets α)) :=
  if opts.makeCache && opts.saveTotal then [⟨r.keyFor .collect r.files q, r.files, c⟩] else []

omit [Scalar α] [Binary α] [Binary.Lawful α] in
/-- The rows of all files are saved. -/
theorem of_mem_rowsSaved {b : CollectedBuckets α} {x : Deposit (CollectedBuckets α)} (hx : x ∈ r.rowsSaved q opts b) :
    x = ⟨r.keyFor .collect r.files q, r.files, b⟩ := by
  unfold rowsSaved at hx
  split at hx
  · exact List.mem_singleton.1 hx
  · cases hx

omit [Binary.Lawful α] in
/-- A collection that is answered as a whole saves nothing. -/
theorem collect_of_recallsRows (hshelf : r.shelf = some shelf) (hrows : r.RecallsRows α s.disk q opts)
    (h : (r.collect q opts).run s = (.ok c, s')) :
    c.cache = ⟨[], [recordOf shelf .collect (r.keyFor .collect r.files q) r.files]⟩ ∧ s'.disk = s.disk := by
  obtain ⟨huse, hheld⟩ := hrows
  obtain ⟨v, hv⟩ := Option.isSome_iff_exists.1 hheld
  rw [collect_eq, if_pos huse] at h
  obtain ⟨rules, _, hrun, h⟩ := exists_of_run_bind h
  obtain ⟨-, rfl⟩ := Job.of_run_lift hrun
  obtain ⟨found, s₁, hfound, h⟩ := exists_of_run_bind h
  obtain ⟨hvalue, hdisk, -, -⟩ := (computes_lookUp .collect _).of_run rfl rfl hfound
  rw [hv] at hvalue
  cases hvalue
  cases h
  rw [recalled, hshelf]
  exact ⟨rfl, hdisk⟩

/-- What a collection does that is not recalled: it loads nothing, and saves the rows. -/
structure Gleans (r : Run) (shelf : Shelf) (q : Query) (opts : AverageOptions) (s s' : Scene) (c : RunCollection α)
    (plan : ReadingPlan) : Prop where
  planned : r.planOn s.disk s.memory.offset q.splits = .ok plan
  settled : r.settledPlan s'.memory.offset q.splits = some plan
  saves : shelf.Saves .collect s.now s.disk (r.rowsSaved q opts c.buckets) s'.disk
  saved : c.cache.saved = (r.rowsSaved q opts c.buckets).map (·.record shelf .collect)
  loaded : c.cache.loaded = []

omit [Binary.Lawful α] in
theorem exists_gleans (hshelf : r.shelf = some shelf) (hmiss : ¬ r.RecallsRows α s.disk q opts)
    (h : (r.collect q opts).run s = (.ok c, s')) : ∃ plan, r.Gleans shelf q opts s s' c plan := by
  rw [collect_eq] at h
  obtain ⟨rules, _, hrun, h⟩ := exists_of_run_bind h
  obtain ⟨-, rfl⟩ := Job.of_run_lift hrun
  obtain ⟨found, s₁, hfound, h⟩ := exists_of_run_bind h
  obtain ⟨hvalue, hd₁, ho₁, hn₁⟩ := (computes_found opts.useCache .collect _).of_run rfl rfl hfound
  -- the rows are not on the shelf, or are not looked up
  obtain rfl : found = none := by
    split at hvalue
    · rename_i huse
      have hnone : (r.held s.disk .collect (r.keyFor .collect r.files q) : Option (CollectedBuckets α)) = none := by
        by_contra hsome
        exact hmiss ⟨huse, Option.isSome_iff_ne_none.2 hsome⟩
      rw [hnone] at hvalue
      exact (Except.ok.inj hvalue).symm
    · exact (Except.ok.inj hvalue).symm
  -- the files are read with a settled plan; disk and time are those at the start
  unfold collectFiles at h
  obtain ⟨plan, s₂, hplan, h⟩ := exists_of_run_bind h
  obtain ⟨s₂', hplan', hd₂, -, hn₂, hsettled⟩ := r.run_plan q.splits hd₁ ho₁
  obtain ⟨hplanOn, rfl⟩ := Prod.mk.inj (hplan'.symm.trans hplan)
  obtain ⟨compiled, s₃, hcompiled, h⟩ := exists_of_run_bind h
  obtain ⟨-, hd₃, ho₃, hn₃⟩ := (Job.Computes.mapM fun name _ => computes_compileFile (α := α) plan q rules name).of_run
    hd₂ rfl hcompiled
  have hdisk : s₃.disk = s.disk := hd₃
  have hnow : s₃.now = s.now := hn₃.trans (hn₂.trans hn₁)
  have hsettled₃ : r.settledPlan s₃.memory.offset q.splits = some plan := by
    rw [ho₃]
    exact hsettled plan hplanOn
  -- and at the end the rows are kept or not, as the options say
  split at h
  · cases h
  obtain ⟨rows, _, hrun, h⟩ := exists_of_run_bind h
  obtain ⟨-, rfl⟩ := Job.of_run_lift hrun
  split at h
  · rename_i hkeeps
    obtain ⟨records, s₄, hkeep, h⟩ := exists_of_run_bind h
    cases h
    obtain ⟨rfl, d, rfl, hsaves⟩ := saves_keep hshelf hkeep
    rw [hdisk, hnow] at hsaves
    have hrows : r.rowsSaved q opts ⟨q.bucketShape, rows⟩ =
        [⟨r.keyFor .collect r.files q, r.files, ⟨q.bucketShape, rows⟩⟩] := if_pos hkeeps
    exact ⟨plan, hplanOn, hsettled₃, by rw [hrows]; exact hsaves, by rw [hrows]; rfl, rfl⟩
  · rename_i hkeeps
    cases h
    have hrows : r.rowsSaved q opts ⟨q.bucketShape, rows⟩ = [] := if_neg hkeeps
    exact ⟨plan, hplanOn, hsettled₃, by rw [hrows, hdisk]; exact .nil _, by rw [hrows]; rfl, rfl⟩

/-- What a collection saves is what the rows are without the shelf. -/
theorem AsksCollection.collectionOn_eq (ha : r.AsksCollection α good q s) (hshelf : r.shelf = some shelf)
    (hd : shelf.Dependable r.store r.files good) (hrun : (r.collect q opts).run s = (.ok c, s')) :
    r.collectionOn s.disk s.memory.offset q = .ok c.buckets := by
  obtain ⟨o, _, hrun', ho⟩ := ha.run_collect hshelf hd opts
  obtain ⟨rfl, -⟩ := Prod.mk.inj (hrun'.symm.trans hrun)
  rw [outcome_collect] at ho
  exact ho.symm

omit [Scalar α] [Binary α] [Binary.Lawful α] in
theorem key_of_mem_rowsSaved {b : CollectedBuckets α} {x : Deposit (CollectedBuckets α)}
    (hx : x ∈ r.rowsSaved q opts b) :
    x.key = r.keyFor .collect r.files q := by
  rw [of_mem_rowsSaved hx]

omit [Scalar α] [Binary α] [Binary.Lawful α] in
theorem keyed_rowsSaved {b : CollectedBuckets α} : ∀ y ∈ r.rowsSaved q opts b, y.Keyed :=
  fun _ hy => ⟨_, key_of_mem_rowsSaved hy⟩

theorem AsksCollection.fits_rowsSaved (ha : r.AsksCollection α good q s) {b : CollectedBuckets α}
    (hb : r.collectionOn s.disk s.memory.offset q = .ok b) : ∀ y ∈ r.rowsSaved q opts b, Fits (y.artifact s.now) := by
  intro y hy
  rw [of_mem_rowsSaved hy]
  exact Artifact.fits_make ha.files ha.now (ha.fits b hb)

/-- After the rows were saved the run may ask again. -/
theorem AsksCollection.asks_saved (ha : r.AsksCollection α good q s) (hshelf : r.shelf = some shelf)
    (hd : shelf.Dependable r.store r.files good) {b : CollectedBuckets α}
    (hb : r.collectionOn s.disk s.memory.offset q = .ok b)
    {done : List (Deposit (CollectedBuckets α))} (hdone : ∀ y ∈ done, y ∈ r.rowsSaved q opts b)
    {x : Deposit (CollectedBuckets α)} (hx : x ∈ done) (hsaves : shelf.Saves .collect s.now s.disk done s₂.disk)
    (hsame : r.SameData q s s₂) (hnow : Fits s₂.now) : r.AsksCollection α good q s₂ := by
  have hkeyed : ∀ y ∈ done, y.Keyed := fun y hy => keyed_rowsSaved y (hdone y hy)
  refine hsame.asksCollection (hd.leftAlone ha.good hkeyed hsaves).good hnow ha fun b' hb' => .inr ?_
  obtain ⟨y, hy, -, hheld⟩ := held_of_saves hshelf hsaves hkeyed (fun y hy => ha.fits_rowsSaved hb y (hdone y hy)) hx
  rw [key_of_mem_rowsSaved (hdone x hx), of_mem_rowsSaved (hdone y hy), hb'] at hheld
  rw [hb, Option.some.inj hheld]

/-- Rows that were saved and are not held any more are saved again. -/
theorem collecting_savesAgain (hshelf : r.shelf = some shelf) (hd : shelf.Dependable r.store r.files good)
    {b : CollectedBuckets α} (hb : r.collectionOn s.disk s.memory.offset q = .ok b)
    {x : Deposit (CollectedBuckets α)} (hx : x ∈ r.rowsSaved q opts b) (ha₂ : r.AsksCollection α good q s₂)
    (hsame : r.SameData q s s₂) (hnone : (r.held s₂.disk .collect x.key : Option (CollectedBuckets α)) = none) :
    (r.collecting α q opts).SavesAgain shelf x b s₂ := by
  have hb₂ : r.collectionOn s₂.disk s₂.memory.offset q = .ok b := hsame.collectionOn_eq.trans hb
  obtain ⟨o₂, s₃, hrun₂, ho₂⟩ := ha₂.run_collect hshelf hd opts
  rw [outcome_collect, hb₂] at ho₂
  obtain ⟨c₂, rfl, rfl⟩ := map_eq_ok.1 ho₂
  have hmiss : ¬ r.RecallsRows α s₂.disk q opts := fun hrecalls => by
    have hheld := hrecalls.2
    rw [← key_of_mem_rowsSaved hx, hnone] at hheld
    cases hheld
  obtain ⟨plan₂, hglean₂⟩ := exists_gleans hshelf hmiss hrun₂
  obtain ⟨y, hy, -, hload⟩ := hglean₂.saves.exists_load keyed_rowsSaved (ha₂.fits_rowsSaved hb₂) x hx
  obtain rfl : y = x := (of_mem_rowsSaved hy).trans (of_mem_rowsSaved hx).symm
  refine ⟨c₂, s₃, hrun₂, rfl, ?_, hload⟩
  show _ ∈ c₂.cache.saved
  rw [hglean₂.saved]
  exact List.mem_map_of_mem hx

end

/-! ## Artifacts that are cut -/

variable [Binary.Canonical α]

/-- An artifact of an operation is cut short. -/
def Breaks (α : Type) [Binary α] [Binary.Lawful α] (shelf : Shelf) (operation : Cache.Operation) (key : String)
    (d d' : Disk) : Prop :=
  match operation with
  | .average => shelf.Cuts (WeightedAverage α) operation.name key d d'
  | .collect => shelf.Cuts (CollectedBuckets α) operation.name key d d'

namespace Breaks

variable {operation : Cache.Operation} {text : String} (hshelf : r.shelf = some shelf)
  (hsteady : shelf.Steady r.store r.files good) (hg : good d) (h : Breaks α shelf operation (Sha256.hexOf text) d d')

include hsteady hg h

omit [Scalar α] [Binary.Canonical α] in
theorem leftAlone : shelf.LeftAlone r.store r.files good operation [Sha256.hexOf text] d d' := by
  cases operation with
  | average => exact Shelf.Cuts.leftAlone h hsteady hg
  | collect => exact Shelf.Cuts.leftAlone h hsteady hg

include hshelf

omit [Scalar α] [Binary.Canonical α] in
/-- What is held afterwards was held before, in another artifact. -/
theorem held_before {β : Type} [Binary β] {operation' : Cache.Operation} {files : List String} {v : β}
    (hgone : operation' = operation → (r.held d' operation' (Sha256.hexOf text) : Option β) = none)
    (hv : r.held d' operation' (r.keyFor operation' files q) = some v) :
    r.held d operation' (r.keyFor operation' files q) = some v ∧
      shelf.path operation'.name (r.keyFor operation' files q) ≠ shelf.path operation.name (Sha256.hexOf text) := by
  by_cases hk : operation' = operation ∧ r.keyFor operation' files q = Sha256.hexOf text
  · rw [hk.2, hgone hk.1] at hv
    cases hv
  · rw [held_of_leftAlone hshelf (h.leftAlone hsteady hg) (by simpa using hk)] at hv
    exact ⟨hv, fun he => hk (Shelf.path_inj he)⟩

omit [Scalar α] in
theorem held_average {files : List String} {v : WeightedAverage α}
    (hv : r.held d' .average (r.keyFor .average files q) = some v) :
    r.held d .average (r.keyFor .average files q) = some v ∧
      shelf.path Cache.Operation.average.name (r.keyFor .average files q) ≠
        shelf.path operation.name (Sha256.hexOf text) :=
  h.held_before hshelf hsteady hg (by rintro rfl; exact held_of_cuts hshelf h) hv

omit [Scalar α] in
theorem held_collection {files : List String} {c : CollectedBuckets α}
    (hc : r.held d' .collect (r.keyFor .collect files q) = some c) :
    r.held d .collect (r.keyFor .collect files q) = some c ∧
      shelf.path Cache.Operation.collect.name (r.keyFor .collect files q) ≠
        shelf.path operation.name (Sha256.hexOf text) :=
  h.held_before hshelf hsteady hg (by rintro rfl; exact held_of_cuts hshelf h) hc

/-- The run may ask for averages as before. -/
theorem asksAverage {s : Scene} {size : Option Nat} (hd : s.disk = d')
    (ha : r.AsksAverage α good q size { s with disk := d }) : r.AsksAverage α good q size s := by
  subst hd
  have hleft := h.leftAlone hsteady hg
  exact (sameData_of_eq (s := { s with disk := d }) hleft.loads rfl).asksAverage hleft.good ha.now ha fun _ _ _ hv =>
    .inl (h.held_average hshelf hsteady hg hv).1

theorem asksCollection {s : Scene} (hd : s.disk = d') (ha : r.AsksCollection α good q { s with disk := d }) :
    r.AsksCollection α good q s := by
  subst hd
  have hleft := h.leftAlone hsteady hg
  exact (sameData_of_eq (s := { s with disk := d }) hleft.loads rfl).asksCollection hleft.good ha.now ha fun _ hc =>
    .inl (h.held_collection hshelf hsteady hg hc).1

end Breaks

/-- After an artifact was cut an average passes over it. -/
theorem overlooks_averaging (hshelf : r.shelf = some shelf) (hsteady : shelf.Steady r.store r.files good)
    {operation : Cache.Operation} {text : String} (hcut : Breaks α shelf operation (Sha256.hexOf text) d s.disk)
    (ha : r.AsksAverage α good q opts.blockSize { s with disk := d }) :
    (r.averaging α q opts).Overlooks (shelf.path operation.name (Sha256.hexOf text)) s := by
  obtain ⟨o, s', hrun, ho⟩ := (hcut.asksAverage hshelf hsteady ha.good rfl ha).run_average hshelf hsteady.toDependable
  refine ⟨?_, fun a s' hrun y hy => ?_⟩
  · dsimp only [averaging]
    rw [hrun]
    exact ho
  · obtain ⟨files, v, hpath, hv⟩ := exists_held_of_loaded hshelf ha.positive hrun hy
    rw [hpath]
    exact (hcut.held_average hshelf hsteady ha.good hv).2

/-- After an artifact was cut a collection passes over it. -/
theorem overlooks_collecting (hshelf : r.shelf = some shelf) (hsteady : shelf.Steady r.store r.files good)
    {operation : Cache.Operation} {text : String} (hcut : Breaks α shelf operation (Sha256.hexOf text) d s.disk)
    (ha : r.AsksCollection α good q { s with disk := d }) :
    (r.collecting α q opts).Overlooks (shelf.path operation.name (Sha256.hexOf text)) s := by
  obtain ⟨o, s', hrun, ho⟩ :=
    (hcut.asksCollection hshelf hsteady ha.good rfl ha).run_collect hshelf hsteady.toDependable opts
  refine ⟨?_, fun c s' hrun y hy => ?_⟩
  · dsimp only [collecting]
    rw [hrun]
    exact ho
  · have hy : y ∈ c.cache.loaded := hy
    by_cases hrows : r.RecallsRows α s.disk q opts
    · obtain ⟨hcache, -⟩ := collect_of_recallsRows hshelf hrows hrun
      obtain ⟨v, hv⟩ := Option.isSome_iff_exists.1 hrows.2
      rw [hcache] at hy
      have hpath : y.path = shelf.path Cache.Operation.collect.name (r.keyFor .collect r.files q) := by
        rw [List.mem_singleton.1 hy, recordOf]
      rw [hpath]
      exact (hcut.held_collection hshelf hsteady ha.good hv).2
    · obtain ⟨plan, hglean⟩ := exists_gleans hshelf hrows hrun
      rw [hglean.loaded] at hy
      cases hy

/-- The averages that an average saves may be cut short at any point. -/
theorem recovers_averaging (hshelf : r.shelf = some shelf) (hsteady : shelf.Steady r.store r.files good) :
    (r.averaging α q opts).Recovers shelf (r.AsksAverage α good q opts.blockSize) := by
  intro s s' a ha hrun
  by_cases hwhole : r.RecallsWhole α s.disk q opts
  · obtain ⟨hcache, hdisk, -⟩ := average_of_recallsWhole hshelf hwhole hrun
    refine ⟨[], by rw [hdisk]; exact .nil _, ?_, fun x hx => (by cases hx),
      fun before x after rest hsplit => by simp at hsplit⟩
    show a.cache.saved = _
    rw [hcache]
    rfl
  obtain ⟨rules, plan, parts, hf⟩ := exists_fills hshelf ha.positive (not_recallsWhole.1 hwhole) hrun
  refine ⟨_, hf.saves, hf.saved, fun x hx => ⟨(hf.of_mem hx).1, hf.fits_deposits ha x hx⟩,
    fun before x after rest hsplit d hsaves s₂ hcut hoffset hnow => ?_⟩
  have hd := hsteady.toDependable
  have hdone : ∀ y ∈ before ++ x :: after, y ∈ r.deposits q opts parts a.average := fun y hy => by
    rw [hsplit]
    exact List.mem_append_left _ hy
  have hx := hdone x (List.mem_append_right _ List.mem_cons_self)
  obtain ⟨text, hkey⟩ := hf.keyed x hx
  have hleft := hd.leftAlone ha.good (fun y hy => hf.keyed y (hdone y hy)) hsaves
  have hbreaks : Breaks α shelf .average (Sha256.hexOf text) d s₂.disk := hkey ▸ hcut
  have hcutLeft := hbreaks.leftAlone hsteady hleft.good
  -- before the artifact was cut and after it the run may ask
  have ha₁ : r.AsksAverage α good q opts.blockSize { s₂ with disk := d } :=
    hf.asks_saved ha hshelf hd hdone hsaves (sameData_of_offset hf.planned hf.settled hleft.loads hoffset) hnow
  have ha₂ := hbreaks.asksAverage hshelf hsteady hleft.good rfl ha₁
  have hnone : (r.held s₂.disk .average x.key : Option (WeightedAverage α)) = none := held_of_cuts hshelf hcut
  have hoverlooks : (r.averaging α q opts).Overlooks (shelf.path Cache.Operation.average.name x.key) s₂ :=
    hkey ▸ overlooks_averaging hshelf hsteady hbreaks ha₁
  refine ⟨hoverlooks, fun hlast => hf.savesAgain ha hshelf hd hx hrun ha₂
    (sameData_of_offset hf.planned hf.settled
      (fun file hfile => (hcutLeft.loads file hfile).trans (hleft.loads file hfile)) hoffset) hnone ?_⟩
  rcases hlast with rfl | hnot
  · -- the artifact over all files is the one that was cut, or was not saved yet
    rintro ⟨huse, hheld⟩
    obtain ⟨v, hv⟩ := Option.isSome_iff_exists.1 hheld
    rcases hf.held_saved ha hshelf hd hdone hsaves (hbreaks.held_average hshelf hsteady hleft.good hv).1 with
      ⟨-, hbefore⟩ | ⟨y, hy, hykey, -⟩
    · exact hwhole ⟨huse, Option.isSome_iff_exists.2 ⟨v, hbefore⟩⟩
    · rcases List.mem_append.1 hy with hy | hy
      · refine hf.not_whole_before ha.positive (by rw [hsplit, List.append_assoc]; rfl) y hy ?_
        exact ha.apart _ (hf.asked (hdone y (List.mem_append_left _ hy))) _ List.mem_cons_self
          (by rw [← (hf.of_mem (hdone y (List.mem_append_left _ hy))).1, hykey])
      · obtain rfl := List.mem_singleton.1 hy
        rw [← hykey, hnone] at hv
        cases hv
  · exact hnot

/-- The rows that a collection saves may be cut short at any point. -/
theorem recovers_collecting (hshelf : r.shelf = some shelf) (hsteady : shelf.Steady r.store r.files good) :
    (r.collecting α q opts).Recovers shelf (r.AsksCollection α good q) := by
  intro s s' c ha hrun
  by_cases hrows : r.RecallsRows α s.disk q opts
  · obtain ⟨hcache, hdisk⟩ := collect_of_recallsRows hshelf hrows hrun
    refine ⟨[], by rw [hdisk]; exact .nil _, ?_, fun x hx => (by cases hx),
      fun before x after rest hsplit => by simp at hsplit⟩
    show c.cache.saved = _
    rw [hcache]
    rfl
  obtain ⟨plan, hglean⟩ := exists_gleans hshelf hrows hrun
  have hd := hsteady.toDependable
  have hb := ha.collectionOn_eq hshelf hd hrun
  refine ⟨_, hglean.saves, hglean.saved,
    fun x hx => ⟨(by rw [of_mem_rowsSaved hx]; rfl), ha.fits_rowsSaved hb x hx⟩,
    fun before x after rest hsplit d hsaves s₂ hcut hoffset hnow => ?_⟩
  have hdone : ∀ y ∈ before ++ x :: after, y ∈ r.rowsSaved q opts c.buckets := fun y hy =>
    hsplit ▸ List.mem_append_left _ hy
  have hmem : x ∈ before ++ x :: after := List.mem_append_right _ List.mem_cons_self
  have hx := hdone x hmem
  obtain ⟨text, hkey⟩ := keyed_rowsSaved x hx
  have hleft := hd.leftAlone ha.good (fun y hy => keyed_rowsSaved y (hdone y hy)) hsaves
  have hbreaks : Breaks α shelf .collect (Sha256.hexOf text) d s₂.disk := hkey ▸ hcut
  have hcutLeft := hbreaks.leftAlone hsteady hleft.good
  -- before the artifact was cut and after it the run may ask
  have ha₁ : r.AsksCollection α good q { s₂ with disk := d } :=
    ha.asks_saved hshelf hd hb hdone hmem hsaves
      (sameData_of_offset hglean.planned hglean.settled hleft.loads hoffset) hnow
  have ha₂ := hbreaks.asksCollection hshelf hsteady hleft.good rfl ha₁
  have hoverlooks : (r.collecting α q opts).Overlooks (shelf.path Cache.Operation.collect.name x.key) s₂ :=
    hkey ▸ overlooks_collecting hshelf hsteady hbreaks ha₁
  exact ⟨hoverlooks, fun _ => collecting_savesAgain hshelf hd hb hx ha₂
    (sameData_of_offset hglean.planned hglean.settled
      (fun file hfile => (hcutLeft.loads file hfile).trans (hleft.loads file hfile)) hoffset)
    (held_of_cuts hshelf hcut)⟩

/-! ## Interrupted saves -/

/-- An interrupted save is harmless. Whatever is saved is found as it was, and where only a part of it lies that is
passed over. After an artifact was cut short, every average and every collection that may be asked for has the outcome
that it has without the shelf, and the artifact is not loaded. The call that saved the artifact saves it again. -/
theorem interrupted_saves_harmless (hshelf : r.shelf = some shelf) (hsteady : shelf.Steady r.store r.files good) :
    (shelf.Discerns (WeightedAverage α) ∧ shelf.Discerns (CollectedBuckets α)) ∧
    (∀ (operation : Cache.Operation) (text : String) (d : Disk) (s : Scene),
      Breaks α shelf operation (Sha256.hexOf text) d s.disk → ∀ (q : Query) (opts : AverageOptions),
        (r.AsksAverage α good q opts.blockSize { s with disk := d } →
          (r.averaging α q opts).Overlooks (shelf.path operation.name (Sha256.hexOf text)) s) ∧
        (r.AsksCollection α good q { s with disk := d } →
          (r.collecting α q opts).Overlooks (shelf.path operation.name (Sha256.hexOf text)) s)) ∧
    ∀ (q : Query) (opts : AverageOptions),
      (r.averaging α q opts).Recovers shelf (r.AsksAverage α good q opts.blockSize) ∧
      (r.collecting α q opts).Recovers shelf (r.AsksCollection α good q) :=
  ⟨⟨shelf.discerns, shelf.discerns⟩,
    fun _ _ _ _ hcut _ _ => ⟨overlooks_averaging hshelf hsteady hcut, overlooks_collecting hshelf hsteady hcut⟩,
    fun _ _ => ⟨recovers_averaging hshelf hsteady, recovers_collecting hshelf hsteady⟩⟩

/-- Nothing lies on the shelf before the first average. -/
theorem held_sceneRecorded (files : List String) : ((recording ["a", "b", "c"]).held sceneRecorded.disk .average
    ((recording ["a", "b", "c"]).keyFor .average files (.all "q")) : Option (WeightedAverage Double)) = none := by
  have hstocked : Shelf.Stocked (WeightedAverage Double) ⟨"work"⟩ .average [] sceneRecorded.disk :=
    vacant_recorded.stocked
  have hheld := isSome_held (r := recording ["a", "b", "c"]) (q := .all "q") (shelf_recording _) hstocked files
  simpa using hheld

/-- The run over the first three files may ask for their average. -/
theorem asksAverage_recording :
    (recording ["a", "b", "c"]).AsksAverage Double (Shelf.Kept ⟨"work"⟩) (.all "q") (some 2) sceneRecorded where
  good := kept_recorded
  now := by decide
  positive := by decide
  apart := keysApart_recording (by decide)
  files := by decide
  fits files hfiles v := by
    rintro ⟨rules, plan, hrules, hplan, hv⟩
    exact (writable_recording hplan _ (mem_averageQuestions.2 ⟨files, hfiles, rfl⟩)).average rfl rules v hrules hv
  right files _ v hheld := by
    rw [held_sceneRecorded] at hheld
    cases hheld

/-- The average of three files in blocks of two is interrupted before anything is written of that of the first two. -/
theorem interrupted_saves_harmless_recording : ∃ (s' s₂ : Scene) (a : RunAverage Double)
    (x : Deposit (WeightedAverage Double)),
    ((recording ["a", "b", "c"]).average (.all "q") (.inBlocks 2 true)).run sceneRecorded = (.ok a, s') ∧
      x.files = ["a", "b"] ∧
      s₂.disk.read? (Shelf.path ⟨"work"⟩ Cache.Operation.average.name x.key) = some [] ∧
      ((recording ["a", "b", "c"]).averaging Double (.all "q") (.inBlocks 2 true)).SavesAgain ⟨"work"⟩ x
        a.average s₂ := by
  obtain ⟨s', -, a, -, hrun, -⟩ := exists_averages_recording
  have hnow : Fits sceneRecorded.now := by decide
  have hsteady : Shelf.Steady ⟨"work"⟩ (recording ["a", "b", "c"]).store (recording ["a", "b", "c"]).files
      (Shelf.Kept ⟨"work"⟩) := Shelf.steady_of_folder plain_work folder_recording (by decide) (by decide) (by decide)
  obtain ⟨-, -, hrecovers⟩ :=
    interrupted_saves_harmless (α := Double) (r := recording ["a", "b", "c"]) (shelf_recording _)
    hsteady
  obtain ⟨deposits, hsaves, hsaved, hall, hrecovers⟩ :=
    (hrecovers (.all "q") (.inBlocks 2 true)).1 _ _ _ asksAverage_recording hrun
  have hfiles : deposits.map (·.files) = [["a", "b"], ["a", "b", "c"]] := by
    obtain ⟨rules, plan, parts, hf⟩ := exists_fills (shelf_recording _) (by decide) (fun _ => held_sceneRecorded _) hrun
    have hnone : (recording ["a", "b", "c"]).recallsBlock Double sceneRecorded.disk (.all "q") (.inBlocks 2 true) =
        fun _ => false := funext fun files => by rw [recallsBlock_inBlocks, held_sceneRecorded, Option.isSome_none]
    have hlists : (recording ["a", "b", "c"]).savedLists Double sceneRecorded.disk (.all "q") (.inBlocks 2 true) =
        [["a", "b"], ["a", "b", "c"]] := by
      unfold savedLists
      rw [hnone]
      decide +kernel
    have hsaved : a.cache.saved = _ := hsaved
    have hmap := congrArg (List.map CacheRecord.files) hsaved
    rw [hf.saved_eq, hlists, List.map_map, List.map_map] at hmap
    exact hmap.symm
  obtain ⟨x, rest, rfl, hx, -⟩ := List.map_eq_cons_iff.1 hfiles
  -- the average of the first block is saved, and nothing is left of it
  have hsaves : Shelf.Saves ⟨"work"⟩ .average sceneRecorded.now sceneRecorded.disk ([x] ++ rest) s'.disk := hsaves
  obtain ⟨d, hsaves, -⟩ := hsaves.split
  have hkeyed : ∀ y ∈ [x], y.Keyed := fun y hy => ⟨_, (hall y (List.mem_append_left rest hy)).1⟩
  have hkept := (hsteady.toDependable.leftAlone kept_recorded hkeyed hsaves).good
  have hread : d.read? (Shelf.path ⟨"work"⟩ Cache.Operation.average.name x.key) =
      some (Binary.encode (x.artifact sceneRecorded.now)) := by
    cases hsaves with
    | cons hsave hnil =>
      cases hnil
      exact (Shelf.receives_of_save hsave).2
  obtain ⟨text, hkey⟩ := hkeyed x (by simp)
  obtain ⟨d', hwrite⟩ : ∃ d', d.write? (Shelf.path ⟨"work"⟩ Cache.Operation.average.name x.key) [] = some d' := by
    rw [hkey] at hread ⊢
    exact Shelf.exists_write_of_read plain_work hkept hread []
  have hcut : Shelf.Cuts (WeightedAverage Double) ⟨"work"⟩ Cache.Operation.average.name x.key d d' :=
    ⟨_, (hall x (by simp)).2, hread, [], ⟨List.nil_prefix, (List.cons_ne_nil _ _).symm⟩, hwrite⟩
  obtain ⟨-, hagain⟩ := hrecovers [] x [] rest rfl d hsaves { sceneRecorded with disk := d' } hcut (.inl rfl) hnow
  exact ⟨s', { sceneRecorded with disk := d' }, a, x, hrun, hx, Disk.read?_of_write hwrite, hagain (.inl rfl)⟩

end Run
end ShotTally
